import TripleQuery.Exec.Stage.Graph
import TripleQuery.Proofs.Binding.Clash
import TripleQuery.Proofs.Solutions.Patterns

/-!
# Extending within some variables

How far a row can grow: `b.ExtendsWithin vars m` says that `m` extends `b` and binds no variable
besides those of `b` and `vars`. Unlike `ExtendsBy` it is an upper bound, so it holds of quads that
do not belong where they are found and of rows that leave a variable unbound.
-/

namespace TripleQuery

namespace Binding

theorem mem_domain_iff {b : Binding} {v : Variable} : v ∈ b.domain ↔ b.contains v = true := by
  rw [contains_iff_exists]
  constructor
  · intro hv
    obtain ⟨⟨w, t⟩, he, rfl⟩ := List.mem_map.1 hv
    exact ⟨t, mem_entries_iff.1 he⟩
  · rintro ⟨t, ht⟩
    exact List.mem_map.2 ⟨(v, t), mem_entries_iff.2 ht, rfl⟩

/-- The second binding extends the first one, and binds no more than some variables besides. -/
structure ExtendsWithin (vars : List Variable) (b m : Binding) : Prop where
  entries : b.Extends m
  domain (v : Variable) : m.contains v = true → b.contains v = true ∨ v ∈ vars

namespace ExtendsWithin

variable {vars vars' : List Variable} {a b m : Binding}

theorem refl (vars : List Variable) (b : Binding) : ExtendsWithin vars b b :=
  ⟨.refl b, fun _ hv => .inl hv⟩

theorem trans (h : ExtendsWithin vars a b) (h' : ExtendsWithin vars' b m) :
    ExtendsWithin (vars ++ vars') a m := by
  refine ⟨h.entries.trans h'.entries, fun v hv => ?_⟩
  rcases h'.domain v hv with hb | hin
  · rcases h.domain v hb with ha | hin
    · exact .inl ha
    · exact .inr (List.mem_append_left vars' hin)
  · exact .inr (List.mem_append_right vars hin)

theorem mono (h : ExtendsWithin vars b m) (hvars : vars ⊆ vars') : ExtendsWithin vars' b m :=
  ⟨h.entries, fun v hv => (h.domain v hv).imp_right (@hvars v)⟩

/-- What is merged in binds some variables and no others. -/
theorem of_union? (hm : a.union? b = some m) (hb : ∀ v, b.contains v = true → v ∈ vars) :
    ExtendsWithin vars a m := by
  refine ⟨extends_left_of_union? hm, fun v hv => ?_⟩
  unfold contains at hv
  rw [get?_union? hm, Option.isSome_or, Bool.or_eq_true] at hv
  exact hv.imp_right (hb v)

theorem of_extend {v : Variable} {t : Term} (h : (b.extend v t).toOption = some m) :
    ExtendsWithin [v] b m := by
  obtain ⟨hby, -⟩ := extend_sound h
  exact ⟨hby.entries, fun w => (hby.domain w).1⟩

/-- A projected row binds no more than the variables it is projected to. -/
theorem project (vars : List Variable) (m : Binding) :
    ExtendsWithin vars empty (m.project vars) := by
  refine ⟨fun v t hv => ?_, fun v hv => .inr ?_⟩
  · cases hv
  · obtain ⟨⟨w, t⟩, he, rfl⟩ := List.mem_map.1 (mem_domain_iff.2 hv)
    obtain ⟨-, hin⟩ := List.mem_filter.1 he
    exact List.contains_iff_mem.1 hin

end ExtendsWithin

end Binding

/-! ## Quads and graph names -/

/-- A quad extends a row within the variables of the pattern and of the slot, wherever the quad
comes from. -/
theorem bindQuad_within {pattern : TriplePattern} {slot : GraphSlot} {row m : Binding} {q : Quad}
    (h : bindQuad pattern slot row q = some m) :
    row.ExtendsWithin (pattern.vars ++ slot.vars) m := by
  unfold bindQuad at h
  obtain ⟨b, hb, hm⟩ := Option.bind_eq_some_iff.1 h
  obtain ⟨hby, -⟩ := matchAll_sound rfl hb
  have hslot : b.ExtendsWithin slot.vars m := by
    unfold GraphSlot.bind at hm
    split at hm
    · exact .of_extend hm
    · cases hm
    · cases hm
      exact .refl _ _
  have hpattern : row.ExtendsWithin pattern.vars b := ⟨hby.entries, fun v => (hby.domain v).1⟩
  exact hpattern.trans hslot

theorem nameRows_within {name : TermPattern} {names : List Term} {row m : Binding}
    (h : m ∈ nameRows name names row) : row.ExtendsWithin name.vars m := by
  cases name with
  | term t =>
    replace h : m ∈ if names.contains t then [row] else [] := h
    split at h
    · rw [List.mem_singleton.1 h]
      exact .refl _ _
    · cases h
  | var v =>
    obtain ⟨t, -, ht⟩ := List.mem_filterMap.1 h
    exact .of_extend ht

end TripleQuery
