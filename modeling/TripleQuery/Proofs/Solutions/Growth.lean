import Mathlib.Data.List.Flatten
import Mathlib.Data.List.Perm.Subperm
import TripleQuery.Proofs.Solutions.Patterns

/-!
# Solutions over growing stores

An operator is positive if nothing in it depends on the absence of data. Put more quads into the
store, and no solution of a positive operator is lost: each row is there at least as often as before
(`Op.solve_subperm`). Every positive operator does to its rows what keeps such an inclusion of
lists with multiplicities. Quads and graph names do not repeat, so for them it is plain inclusion.
-/

namespace TripleQuery

open List

/-! ## Inclusion with multiplicities -/

section Lists

variable {α β : Type} {as bs : List α}

theorem subperm_filterMap (f : α → Option β) (h : as <+~ bs) :
    as.filterMap f <+~ bs.filterMap f := by
  obtain ⟨l, hperm, hsub⟩ := h
  exact ⟨l.filterMap f, hperm.filterMap f, hsub.filterMap f⟩

theorem subperm_map (f : α → β) (h : as <+~ bs) : as.map f <+~ bs.map f := by
  obtain ⟨l, hperm, hsub⟩ := h
  exact ⟨l.map f, hperm.map f, hsub.map f⟩

theorem subperm_flatMap {f g : α → List β} (h : as <+~ bs) (hfg : ∀ a, f a <+~ g a) :
    as.flatMap f <+~ bs.flatMap g := by
  have hsame (cs : List α) : cs.flatMap f <+~ cs.flatMap g := by
    induction cs with
    | nil => exact Subperm.refl _
    | cons c cs ih =>
      simp only [flatMap_cons]
      exact (hfg c).append ih
  obtain ⟨l, hperm, hsub⟩ := h
  have hmore : as.flatMap f <+~ bs.flatMap f := ⟨l.flatMap f, hperm.flatMap_right f, hsub.flatMap f⟩
  exact hmore.trans (hsame bs)

theorem nodup_eraseDups [BEq α] [LawfulBEq α] (as : List α) : as.eraseDups.Nodup := by
  match as with
  | [] => exact nodup_nil
  | a :: rest =>
    rw [eraseDups_cons, nodup_cons]
    refine ⟨fun hmem => ?_, nodup_eraseDups _⟩
    have hkept : a ∈ rest.filter fun b => !b == a := mem_eraseDups.1 hmem
    simp at hkept
termination_by as.length
decreasing_by exact Nat.lt_succ_of_le (length_filter_le _ _)

theorem subperm_eraseDups [BEq α] [LawfulBEq α] (h : as <+~ bs) :
    as.eraseDups <+~ bs.eraseDups := by
  refine (nodup_eraseDups as).subperm fun a ha => ?_
  exact mem_eraseDups.2 (h.subset (mem_eraseDups.1 ha))

theorem subperm_mergeSort (le : α → α → Bool) (h : as <+~ bs) :
    as.mergeSort le <+~ bs.mergeSort le :=
  (mergeSort_perm as le).subperm.trans (h.trans (mergeSort_perm bs le).symm.subperm)

end Lists

theorem joinRows_subperm {as as' bs bs' : List Binding} (ha : as <+~ as') (hb : bs <+~ bs') :
    joinRows as bs <+~ joinRows as' bs' :=
  subperm_flatMap ha fun a => subperm_filterMap a.union? hb

/-! ## Stores -/

namespace QuadStore

theorem mem_distinctNames {name : Term} {graphs : List (Option Term)} :
    name ∈ distinctNames graphs ↔ some name ∈ graphs := by
  induction graphs with
  | nil => simp [distinctNames]
  | cons graph rest ih =>
    cases graph with
    | none => simp [distinctNames, ih]
    | some first =>
      rw [distinctNames, mem_cons, Option.some_inj]
      split
      · next hhead =>
        refine ih.trans (iff_or_self.2 fun heq => ?_)
        rw [heq]
        exact mem_of_mem_head? hhead
      · rw [mem_cons, ih]

/-- Names that come in order are told apart by their neighbours. -/
theorem nodup_distinctNames {graphs : List (Option Term)}
    (h : graphs.Pairwise fun g g' => (compare g g').isLE) : (distinctNames graphs).Nodup := by
  induction graphs with
  | nil => exact nodup_nil
  | cons graph rest ih =>
    obtain ⟨hfirst, hrest⟩ := pairwise_cons.1 h
    cases graph with
    | none => exact ih hrest
    | some first =>
      rw [distinctNames]
      split
      · exact ih hrest
      · next hhead =>
        refine nodup_cons.2 ⟨fun hmem => ?_, ih hrest⟩
        have hagain : some first ∈ rest := mem_distinctNames.1 hmem
        cases rest with
        | nil => cases hagain
        | cons second others =>
          refine hhead (congrArg some ?_)
          rcases mem_cons.1 hagain with heq | hlater
          · exact heq.symm
          · have hle := hfirst second mem_cons_self
            have hge := (pairwise_cons.1 hrest).1 _ hlater
            exact Std.LawfulEqOrd.eq_of_compare (Std.OrientedCmp.isLE_antisymm hge hle)

theorem mem_graphNames {store : QuadStore} {name : Term} :
    name ∈ store.graphNames ↔ ∃ q ∈ store.quads, q.graph = some name :=
  mem_distinctNames.trans mem_map

/-- The order of quads looks at the graphs first. -/
theorem graphs_ordered (store : QuadStore) :
    (store.quads.map (·.graph)).Pairwise fun g g' => (compare g g').isLE := by
  refine pairwise_map.2 (store.ordered.imp fun {q r} hlt => ?_)
  change (compare q.graph r.graph).then _ = .lt at hlt
  cases hcompare : compare q.graph r.graph with
  | lt | eq => rfl
  | gt =>
    rw [hcompare] at hlt
    cases hlt

theorem nodup_graphNames (store : QuadStore) : store.graphNames.Nodup :=
  nodup_distinctNames store.graphs_ordered

variable {store store' : QuadStore} (h : store.quads ⊆ store'.quads)

include h

theorem graphNames_subperm : store.graphNames <+~ store'.graphNames := by
  refine store.nodup_graphNames.subperm fun name hname => ?_
  obtain ⟨q, hq, hgraph⟩ := mem_graphNames.1 hname
  exact mem_graphNames.2 ⟨q, h hq, hgraph⟩

theorem matchQuads_subperm (slot : GraphSlot) (pattern : TriplePattern) (row : Binding) :
    store.matchQuads slot pattern row <+~ store'.matchQuads slot pattern row :=
  subperm_filterMap _ (store.nodup_quads.subperm h)

theorem solvePatterns_subperm (slot : GraphSlot) (patterns : List TriplePattern)
    {rows rows' : List Binding} (hrows : rows <+~ rows') :
    store.solvePatterns slot patterns rows <+~ store'.solvePatterns slot patterns rows' := by
  induction patterns generalizing rows rows' with
  | nil => exact hrows
  | cons pattern patterns ih =>
    exact ih (subperm_flatMap hrows (matchQuads_subperm h slot pattern))

theorem nameTable_subperm (name : TermPattern) :
    store.nameTable name <+~ store'.nameTable name := by
  cases name with
  | var v => exact subperm_map _ (graphNames_subperm h)
  | term name =>
    simp only [nameTable]
    by_cases hname : name ∈ store.graphNames
    · rw [if_pos hname, if_pos ((graphNames_subperm h).subset hname)]
    · rw [if_neg hname]
      exact nil_subperm

end QuadStore

/-! ## Operators -/

namespace Op

/-- Nothing in the operator depends on the absence of rows, and it has no extensions: optional sides
keep rows without a partner, and a slice keeps rows by their position. -/
def Positive : Op → Prop
  | leftJoin .. | slice .. | extension _ => False
  | bgp _ | quadPattern .. | datasetNames _ | table _ => True
  | join l r | union l r => l.Positive ∧ r.Positive
  | filter _ s | graph _ s | order _ s | project _ s | distinct s => s.Positive

theorem Positive.plain {op : Op} (h : op.Positive) : op.Plain := by
  induction op with
  | bgp | quadPattern | datasetNames | table => trivial
  | leftJoin | slice | extension => cases h
  | join _ _ ihl ihr | union _ _ ihl ihr => exact ⟨ihl h.1, ihr h.2⟩
  | filter _ _ ih | graph _ _ ih | order _ _ ih | project _ _ ih | distinct _ ih => exact ih h

/-- **Growth.** Over a larger store and more rows that flow in, a positive operator has more
solutions, counted with multiplicities. -/
theorem solve_subperm {store store' : QuadStore} (h : store.quads ⊆ store'.quads) {op : Op}
    (hop : op.Positive) (g : ActiveGraph) {rows rows' : List Binding} (hrows : rows <+~ rows') :
    op.solve store g rows <+~ op.solve store' g rows' := by
  -- what is solved for the row that binds nothing
  have hunit : [Binding.empty] <+~ [Binding.empty] := Subperm.refl _
  induction op generalizing g rows rows' with
  | bgp patterns | quadPattern name patterns =>
    exact QuadStore.solvePatterns_subperm h _ patterns hrows
  | datasetNames name => exact joinRows_subperm hrows (QuadStore.nameTable_subperm h name)
  | table t => exact joinRows_subperm hrows (Subperm.refl _)
  | leftJoin | slice | extension => cases hop
  | join l r ihl ihr => exact ihr hop.2 g (ihl hop.1 g hrows)
  | union l r ihl ihr => exact (ihl hop.1 g hrows).append (ihr hop.2 g hrows)
  | filter e sub ih =>
    unfold solve
    split
    · exact (ih hop g hrows).filter e.admits
    · exact joinRows_subperm hrows ((ih hop g hunit).filter e.admits)
  | graph name sub ih =>
    cases name with
    | term name => exact ih hop (.named name) hrows
    | var v =>
      refine subperm_flatMap hrows fun row =>
        subperm_flatMap (QuadStore.graphNames_subperm h) fun name => ?_
      cases row.extend v name with
      | ok m => exact ih hop (.named name) (Subperm.refl [m])
      | error c => exact Subperm.refl []
  | order keys sub ih => exact joinRows_subperm hrows (subperm_mergeSort _ (ih hop g hunit))
  | project vars sub ih => exact joinRows_subperm hrows (subperm_map _ (ih hop g hunit))
  | distinct sub ih => exact joinRows_subperm hrows (subperm_eraseDups (ih hop g hunit))

end Op

end TripleQuery
