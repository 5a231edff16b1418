import TripleQuery.Proofs.Flow.Op

/-!
# Placed filters

A filter over some scans may be applied as soon as its variables are bound. The rows that further
scans make of a row extend it, and an extension changes nothing about variables that are bound
already; so it is the same to apply the filter before those scans and after them
(`Source.filter_scanAll`).
-/

namespace TripleQuery

/-! ## What scans bind -/

namespace Binding

theorem contains_of_extends {b m : Binding} (h : b.Extends m) {v : Variable}
    (hb : b.contains v = true) : m.contains v = true := by
  obtain ⟨t, ht⟩ := Option.isSome_iff_exists.1 hb
  exact Option.isSome_iff_exists.2 ⟨t, h v t ht⟩

/-- Matching binds the variables of the positions. -/
theorem matchAll_binds {b m : Binding} {ps : List TermPattern} {ts : List Term}
    (hlen : ps.length ≤ ts.length) (h : b.matchAll ps ts = some m) :
    b.Extends m ∧ ∀ v, .var v ∈ ps → m.contains v = true := by
  induction ps generalizing b ts with
  | nil =>
    obtain rfl : b = m := by
      rw [matchAll] at h
      · exact Option.some.inj h
      all_goals intros; contradiction
    exact ⟨.refl b, fun v hv => absurd hv List.not_mem_nil⟩
  | cons p ps ih =>
    obtain ⟨t, ts, rfl⟩ := List.exists_cons_of_length_pos (Nat.lt_of_lt_of_le (Nat.succ_pos _) hlen)
    have hlen' : ps.length ≤ ts.length := Nat.le_of_succ_le_succ hlen
    cases p with
    | term u =>
      rw [matchAll] at h
      by_cases hu : u = t
      · rw [if_pos hu] at h
        obtain ⟨hext, hbinds⟩ := ih hlen' h
        refine ⟨hext, fun v hv => hbinds v ?_⟩
        cases hv with
        | tail _ hv => exact hv
      · rw [if_neg hu] at h
        cases h
    | var u =>
      rw [matchAll] at h
      cases he : b.extend u t with
      | error c =>
        rw [he] at h
        cases h
      | ok b' =>
        rw [he] at h
        obtain ⟨hext, hbinds⟩ := ih hlen' h
        obtain ⟨hext', hu⟩ := extends_of_extend he
        refine ⟨hext'.trans hext, fun v hv => ?_⟩
        cases hv with
        | head => exact contains_of_extends hext (Option.isSome_iff_exists.2 ⟨t, hu⟩)
        | tail _ hv => exact hbinds v hv

end Binding

theorem mem_vars_iff {pattern : TriplePattern} {v : Variable} :
    v ∈ pattern.vars ↔ .var v ∈ pattern.positions := by
  unfold TriplePattern.vars
  rw [List.mem_flatMap]
  constructor
  · rintro ⟨p, hp, hv⟩
    cases p with
    | term t => cases hv
    | var u =>
      obtain rfl : v = u := List.mem_singleton.1 hv
      exact hp
  · intro hv
    exact ⟨.var v, hv, List.mem_singleton.2 rfl⟩

/-- What a quad makes of a row extends the row and binds the variables of pattern and slot. -/
theorem bindQuad_binds {pattern : TriplePattern} {slot : GraphSlot} {row m : Binding} {q : Quad}
    (h : bindQuad pattern slot row q = some m) :
    row.Extends m ∧ ∀ v, v ∈ pattern.vars ∨ v ∈ slot.vars → m.contains v = true := by
  obtain ⟨b, hmatch, hslot⟩ := Option.bind_eq_some_iff.1 h
  obtain ⟨hext, hbinds⟩ := Binding.matchAll_binds (Nat.le_refl pattern.positions.length) hmatch
  have hpattern (v : Variable) (hv : v ∈ pattern.vars) : b.contains v = true :=
    hbinds v (mem_vars_iff.1 hv)
  cases slot with
  | default | named _ =>
    cases hslot
    refine ⟨hext, fun v hv => ?_⟩
    rcases hv with hv | hv
    · exact hpattern v hv
    · cases hv
  | var u =>
    cases hg : q.graph with
    | none =>
      rw [hg] at hslot
      cases hslot
    | some name =>
      rw [hg] at hslot
      have hbind : (b.extend u name).toOption = some m := hslot
      cases he : b.extend u name with
      | error c =>
        rw [he] at hbind
        cases hbind
      | ok b' =>
        rw [he] at hbind
        cases hbind
        obtain ⟨hext', hu⟩ := Binding.extends_of_extend he
        refine ⟨hext.trans hext', fun v hv => ?_⟩
        rcases hv with hv | hv
        · exact Binding.contains_of_extends hext' (hpattern v hv)
        · obtain rfl : v = u := List.mem_singleton.1 hv
          exact Option.isSome_iff_exists.2 ⟨name, hu⟩

namespace Source

variable {src : Source} {pattern : TriplePattern} {slot : GraphSlot} {row m : Binding}

theorem scanRows_binds (h : m ∈ src.scanRows pattern slot row) :
    row.Extends m ∧ ∀ v, v ∈ pattern.vars ∨ v ∈ slot.vars → m.contains v = true := by
  obtain ⟨q, -, hq⟩ := List.mem_filterMap.1 h
  exact bindQuad_binds hq

end Source

/-! ## Filters before and after -/

/-- All rows of a flow bind some variables. -/
def Flow.Binds (f : Flow) (vars : List Variable) : Prop :=
  ∀ b ∈ f.rows, ∀ v ∈ vars, b.contains v = true

namespace Flow

theorem filter_expand {f : Flow} {keep : Binding → Bool} {k : Binding → List Binding}
    (h : ∀ b ∈ f.rows, ∀ m ∈ k b, keep m = keep b) :
    (f.filter keep).expand k = (f.expand k).filter keep := by
  unfold filter
  rw [expand_expand, expand_expand]
  refine expand_congr fun b hb => ?_
  rw [← filter_eq_flatMap]
  by_cases hkeep : keep b = true
  · rw [if_pos hkeep, List.flatMap_singleton]
    exact (List.filter_eq_self.2 fun m hm => (h b hb m hm).trans hkeep).symm
  · rw [if_neg hkeep, List.flatMap_nil]
    refine (List.filter_eq_nil_iff.2 fun m hm => ?_).symm
    rw [h b hb m hm]
    exact hkeep

end Flow

namespace Source

variable {src : Source} {slot : GraphSlot} {f : Flow} {e : Expr}

theorem scanAll_cons (pattern : TriplePattern) (patterns : List TriplePattern) :
    src.scanAll slot (pattern :: patterns) f =
      src.scanAll slot patterns (f.expand (src.scanRows pattern slot)) := rfl

/-- The rows of a scan still bind what they bound before. -/
theorem binds_expand {vars : List Variable} (h : f.Binds vars) (pattern : TriplePattern) :
    (f.expand (src.scanRows pattern slot)).Binds vars := by
  intro m hm v hv
  rw [Flow.rows_expand] at hm
  obtain ⟨b, hb, hm⟩ := List.mem_flatMap.1 hm
  exact Binding.contains_of_extends (scanRows_binds hm).1 (h b hb v hv)

/-- **Filters can be placed.** A filter whose variables are bound already can be applied before some
scans or after them. -/
theorem filter_scanAll (h : f.Binds e.mentions) (patterns : List TriplePattern) :
    src.scanAll slot patterns (f.filter e.admits) =
      (src.scanAll slot patterns f).filter e.admits := by
  induction patterns generalizing f with
  | nil => rfl
  | cons pattern patterns ih =>
    have hcomm : (f.filter e.admits).expand (src.scanRows pattern slot) =
        (f.expand (src.scanRows pattern slot)).filter e.admits := by
      refine Flow.filter_expand fun b hb m hm => ?_
      exact e.admits_congr (.of_extends (scanRows_binds hm).1 (h b hb))
    rw [scanAll_cons, scanAll_cons, hcomm]
    exact ih (binds_expand h pattern)

end Source

end TripleQuery
