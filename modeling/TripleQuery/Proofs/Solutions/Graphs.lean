import TripleQuery.Proofs.Solutions.Growth

/-!
# Ranging over the named graphs

A variable in the place of a graph name can be bound before patterns are matched, to one name after
the other, or afterwards, by the quads that match. Both give the same rows in the same order,
because the quads of a store lie graph by graph, the graphs in the order of their names
(`named_quads_by_graph`). The row may bind the variable before, and the patterns may mention it.
-/

namespace TripleQuery

open List

/-! ## Quads graph by graph -/

namespace QuadStore

theorem distinctNames_sublist (graphs : List (Option Term)) :
    (distinctNames graphs).map some <+ graphs := by
  induction graphs with
  | nil => exact nil_sublist []
  | cons graph rest ih =>
    cases graph with
    | none => exact ih.cons none
    | some name =>
      rw [distinctNames]
      split
      · exact ih.cons (some name)
      · exact ih.cons_cons (some name)

variable (store : QuadStore)

/-- The names of the named graphs are in ascending order. -/
theorem graphNames_ordered : store.graphNames.Pairwise fun n n' => compare n n' = .lt := by
  have hle : (store.graphNames.map some).Pairwise fun g g' => (compare g g').isLE :=
    store.graphs_ordered.sublist (distinctNames_sublist _)
  refine ((pairwise_map.1 hle).and store.nodup_graphNames).imp fun {n n'} ⟨hle, hne⟩ => ?_
  cases h : compare n n' with
  | lt => rfl
  | eq => exact absurd (Std.LawfulEqOrd.eq_of_compare h) hne
  | gt =>
    have hgt : compare (some n) (some n') = .gt := h
    rw [hgt] at hle
    cases hle

/-- Quads in ascending order are a set. -/
theorem eq_of_ordered {qs rs : List Quad} (hq : qs.Pairwise fun a b => a.order b = .lt)
    (hr : rs.Pairwise fun a b => a.order b = .lt) (h : ∀ q, q ∈ qs ↔ q ∈ rs) : qs = rs := by
  have hperm : qs ~ rs := (perm_ext_iff_of_nodup (nodup_quads ⟨qs, hq⟩) (nodup_quads ⟨rs, hr⟩)).2 h
  refine hperm.eq_of_pairwise (fun a b _ _ hab hba => ?_) hq hr
  exact absurd hba (Std.OrientedCmp.not_lt_of_lt hab)

theorem named_quads_by_graph :
    store.quads.filter (·.graph.isSome) =
      store.graphNames.flatMap fun name => store.quads.filter (·.graph == some name) := by
  refine eq_of_ordered (store.ordered.filter _) ?_ fun q => ?_
  · refine pairwise_flatMap.2 ⟨fun name _ => store.ordered.filter _, ?_⟩
    refine store.graphNames_ordered.imp fun {n n'} hlt q hq r hr => ?_
    -- the order of quads looks at the graphs first
    have hqn : q.graph = some n := beq_iff_eq.1 (mem_filter.1 hq).2
    have hrn : r.graph = some n' := beq_iff_eq.1 (mem_filter.1 hr).2
    show (compare q.graph r.graph).then _ = .lt
    have hgraph : compare (some n) (some n') = .lt := hlt
    rw [hqn, hrn, hgraph]
    rfl
  · simp only [mem_filter, mem_flatMap, beq_iff_eq]
    constructor
    · rintro ⟨hq, hgraph⟩
      obtain ⟨name, hname⟩ := Option.isSome_iff_exists.1 hgraph
      exact ⟨name, mem_graphNames.2 ⟨q, hq, hname⟩, hq, hname⟩
    · rintro ⟨name, -, hq, hname⟩
      exact ⟨hq, by rw [hname]; rfl⟩

end QuadStore

/-! ## Patterns -/

theorem Binding.extend_of_bound {b : Binding} {v : Variable} {t : Term} (h : b.get? v = some t) :
    b.extend v t = .ok b := by
  simp [extend, h]

variable {store : QuadStore} {p : TriplePattern} {ps : List TriplePattern} {v : Variable}
  {name : Term} {row : Binding} {q : Quad}

/-- A quad of a named graph binds the variable before or after it is matched. -/
theorem bindQuad_var (hq : q.graph = some name) :
    bindQuad p (.var v) row q =
      (row.extend v name).toOption.bind fun m => bindQuad p (.named name) m q := by
  have hunion (b : Binding) : (b.extend v name).toOption = (Binding.single v name).union? b := by
    rw [Binding.union?_comm, Binding.union?_single]
  have hvar : GraphSlot.bind (.var v) (some name) = (Binding.single v name).union? :=
    funext hunion
  have hnamed (m : Binding) : bindQuad p (.named name) m q = m.matchAll p.positions q.terms :=
    Option.bind_fun_some _
  simp only [hnamed]
  rw [bindQuad, hq, hvar, hunion]
  exact (lifts_matchAll p.positions q.terms _ row).symm

theorem matchQuads_named (m : Binding) :
    store.matchQuads (.named name) p m =
      (store.quads.filter (·.graph == some name)).filterMap fun q =>
        bindQuad p (.named name) m q := by
  rw [filterMap_filter]
  rfl

/-- **Patterns in any graph.** The quads that match in some named graph are those that match in
one of them after the other. -/
theorem matchQuads_var :
    store.matchQuads (.var v) p row = store.graphNames.flatMap fun name =>
      (row.extend v name).toOption.toList.flatMap (store.matchQuads (.named name) p) := by
  have hnamed : store.matchQuads (.var v) p row =
      (store.quads.filter (·.graph.isSome)).filterMap (bindQuad p (.var v) row) := by
    rw [filterMap_filter]
    rfl
  rw [hnamed, QuadStore.named_quads_by_graph, filterMap_flatMap]
  refine flatMap_congr fun name _ => ?_
  have hbind : (store.quads.filter (·.graph == some name)).filterMap (bindQuad p (.var v) row) =
      (store.quads.filter (·.graph == some name)).filterMap fun q =>
        (row.extend v name).toOption.bind fun m => bindQuad p (.named name) m q := by
    refine filterMap_congr fun q hq => ?_
    exact bindQuad_var (beq_iff_eq.1 (mem_filter.1 hq).2)
  rw [hbind]
  cases (row.extend v name).toOption with
  | none => exact filterMap_none _
  | some m => rw [Option.toList_some, flatMap_singleton, matchQuads_named]; rfl

/-- Where the variable is bound to a name, only that graph is looked at. -/
theorem matchQuads_bound (h : row.get? v = some name) :
    store.matchQuads (.var v) p row = store.matchQuads (.named name) p row := by
  refine filterMap_congr fun q _ => ?_
  cases hgraph : q.graph with
  | none => rfl
  | some other =>
    have hvar : (GraphSlot.var v).covers (some other) = true := rfl
    rw [if_pos hvar, bindQuad_var hgraph]
    by_cases hname : other = name
    · have hnamed : (GraphSlot.named name).covers (some other) = true := by
        rw [hname]
        exact beq_self_eq_true _
      rw [if_pos hnamed, hname, Binding.extend_of_bound h]
      rfl
    · have hnamed : ¬ (GraphSlot.named name).covers (some other) = true := by
        intro hcovers
        exact hname (Option.some.inj (beq_iff_eq.1 hcovers))
      rw [if_neg hnamed, Binding.extend_of_conflict h (Ne.symm hname)]
      rfl

theorem solvePatterns_bound (h : row.get? v = some name) :
    store.solvePatterns (.var v) ps [row] = store.solvePatterns (.named name) ps [row] := by
  induction ps generalizing row with
  | nil => rfl
  | cons p ps ih =>
    rw [solvePatterns_cons_single, solvePatterns_cons_single, matchQuads_bound h]
    refine flatMap_congr fun m hm => ih ?_
    exact (matchQuads_sound hm).1.entries v name h

/-- Patterns bind the variable first or last, if there are any patterns. -/
theorem solvePatterns_var (hps : ps ≠ []) :
    store.solvePatterns (.var v) ps [row] = store.graphNames.flatMap fun name =>
      (row.extend v name).toOption.toList.flatMap fun m =>
        store.solvePatterns (.named name) ps [m] := by
  obtain ⟨p, ps, rfl⟩ := exists_cons_of_ne_nil hps
  rw [solvePatterns_cons_single, matchQuads_var, flatMap_assoc]
  refine flatMap_congr fun name _ => ?_
  rw [flatMap_assoc]
  refine flatMap_congr fun m hm => ?_
  obtain ⟨-, hv⟩ := Binding.extend_sound (Option.mem_toList.1 hm)
  rw [solvePatterns_cons_single]
  refine flatMap_congr fun n hn => solvePatterns_bound ?_
  exact (matchQuads_sound hn).1.entries v name hv

/-! ## Operators -/

/-- **Binding the graph before the patterns or by them.** Without any pattern there is no quad that
could bind the variable. -/
theorem Op.solve_graph_bgp (h : ps ≠ []) (g : ActiveGraph) :
    (Op.graph (.var v) (.bgp ps)).solve store g = (Op.quadPattern (.var v) ps).solve store g := by
  funext rows
  have hquads : (Op.quadPattern (.var v) ps).solve store g rows =
      rows.flatMap fun row => store.solvePatterns (.var v) ps [row] :=
    solvePatterns_eq_flatMap _ ps rows
  rw [solve_graph_var, hquads]
  exact flatMap_congr fun row _ => (solvePatterns_var h).symm

/-- A subtree that leaves its row alone leaves the listing of the graph names. -/
theorem Op.solve_graph_names {sub : Op} (v : Variable) (g : ActiveGraph)
    (h : ∀ name m, sub.solve store (.named name) [m] = [m]) :
    (Op.graph (.var v) sub).solve store g = (Op.datasetNames (.var v)).solve store g := by
  have hnames (row : Binding) : mergeInto row (store.nameTable (.var v)) =
      store.graphNames.flatMap fun name => (row.extend v name).toOption.toList := by
    show (store.graphNames.map (Binding.single v)).filterMap row.union? = _
    rw [filterMap_map, filterMap_eq_flatMap_toList]
    refine flatMap_congr fun name _ => ?_
    rw [Function.comp_apply, Binding.union?_single]
  funext rows
  rw [solve_graph_var]
  refine flatMap_congr fun row _ => ?_
  rw [hnames]
  refine flatMap_congr fun name _ => ?_
  simp only [h, flatMap_singleton']

end TripleQuery
