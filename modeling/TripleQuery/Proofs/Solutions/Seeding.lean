import TripleQuery.Proofs.Expr.Locality
import TripleQuery.Proofs.Solutions.Join

/-!
# Seeding is joining

Feeding rows into an operator is meant to come to the same as joining them with what the operator
yields by itself. For a pattern, a table or a listing this holds as it stands (`Factors`), and it
passes through joins, unions and graphs. A filter that rows are fed through is the exception: its
condition sees the fed row, so it has to say the same of a row and of every extension of it. That
is what `Steady` asks, and no less will do (`Op.feedable_filter_iff`).
-/

namespace TripleQuery

open List

/-! ## Conditions that extensions do not sway -/

/-- A property of the condition and the subtree of every filter that rows are fed through: its
variables are among those of its subtree, and no operator above it is solved by itself. -/
def Op.SeededFilters (P : Expr → Op → Prop) : Op → Prop
  | .join l r | .union l r => l.SeededFilters P ∧ r.SeededFilters P
  | .filter e s => coveredBy e.mentions s.mentions = true → P e s ∧ s.SeededFilters P
  | .graph _ s => s.SeededFilters P
  | _ => True

theorem Op.SeededFilters.imp {P Q : Expr → Op → Prop} {op : Op} (hop : op.Plain)
    (h : ∀ e s, s.Plain → P e s → Q e s) (hp : op.SeededFilters P) : op.SeededFilters Q := by
  induction op with
  | join l r ihl ihr | union l r ihl ihr => exact ⟨ihl hop.1 hp.1, ihr hop.2 hp.2⟩
  | filter e s ih => exact fun hc => ⟨h e s hop (hp hc).1, ih hop (hp hc).2⟩
  | graph _ s ih => exact ih hop hp
  | _ => trivial

/-- The rows that an operator yields by itself bind every variable of a condition. -/
def BindsAll (store : QuadStore) (e : Expr) (s : Op) : Prop :=
  ∀ g, ∀ r ∈ s.solve store g [.empty], ∀ v ∈ e.mentions, r.contains v = true

/-- A condition says the same of a row that an operator yields by itself and of every extension of
that row. -/
def Steady (store : QuadStore) (e : Expr) (s : Op) : Prop :=
  ∀ g, ∀ r ∈ s.solve store g [.empty], ∀ r', r.Extends r' → e.admits r' = e.admits r

theorem Binding.SameOn.of_extends {vars : List Variable} {r r' : Binding} (h : r.Extends r')
    (hb : ∀ v ∈ vars, r.contains v = true) : Binding.SameOn vars r' r := by
  intro v hv
  obtain ⟨t, ht⟩ := Option.isSome_iff_exists.1 (hb v hv)
  rw [ht, h v t ht]

theorem BindsAll.steady {store : QuadStore} {e : Expr} {s : Op} (h : BindsAll store e s) :
    Steady store e s :=
  fun g r hr _ hext => e.admits_congr (.of_extends hext (h g r hr))

/-! ## Patterns -/

theorem matchAll_var_cons (b : Binding) (v : Variable) (ps : List TermPattern) (t : Term)
    (ts : List Term) :
    b.matchAll (.var v :: ps) (t :: ts) = (b.extend v t).toOption.bind (·.matchAll ps ts) := by
  rw [Binding.matchAll]
  cases b.extend v t <;> rfl

theorem lifts_matchAll (ps : List TermPattern) (ts : List Term) :
    Lifts fun b => b.matchAll ps ts := by
  induction ps generalizing ts with
  | nil =>
    simp only [Binding.matchAll]
    exact lifts_some
  | cons p ps ih =>
    cases ts with
    | nil =>
      simp only [Binding.matchAll]
      exact lifts_some
    | cons t ts =>
      cases p with
      | var v =>
        simp only [matchAll_var_cons]
        exact (lifts_extend v t).bind (ih ts)
      | term u =>
        simp only [Binding.matchAll]
        by_cases h : u = t
        · simp only [if_pos h]
          exact ih ts
        · simp only [if_neg h]
          exact lifts_none

theorem lifts_slotBind (slot : GraphSlot) (graph : Option Term) : Lifts (slot.bind graph) := by
  cases slot with
  | default => exact lifts_some
  | named _ => exact lifts_some
  | var v =>
    cases graph with
    | none => exact lifts_none
    | some name => exact lifts_extend v name

theorem lifts_bindQuad (pattern : TriplePattern) (slot : GraphSlot) (q : Quad) :
    Lifts fun row => bindQuad pattern slot row q :=
  (lifts_matchAll pattern.positions q.terms).bind (lifts_slotBind slot q.graph)

variable {store : QuadStore}

theorem factors_matchQuads (slot : GraphSlot) (pattern : TriplePattern) :
    Factors (store.matchQuads slot pattern) := by
  refine Factors.filterMap store.quads fun q => ?_
  by_cases h : slot.covers q.graph
  · simp only [if_pos h]
    exact lifts_bindQuad pattern slot q
  · simp only [if_neg h]
    exact lifts_none

theorem solvePatterns_cons (slot : GraphSlot) (p : TriplePattern) (ps : List TriplePattern)
    (rows : List Binding) :
    store.solvePatterns slot (p :: ps) rows =
      store.solvePatterns slot ps (rows.flatMap (store.matchQuads slot p)) := rfl

/-- Patterns are matched row by row. -/
theorem solvePatterns_eq_flatMap (slot : GraphSlot) (ps : List TriplePattern)
    (rows : List Binding) :
    store.solvePatterns slot ps rows =
      rows.flatMap fun row => store.solvePatterns slot ps [row] := by
  induction ps generalizing rows with
  | nil => exact (flatMap_singleton' rows).symm
  | cons p ps ih =>
    have hrow : ∀ row, store.solvePatterns slot (p :: ps) [row] =
        (store.matchQuads slot p row).flatMap fun m => store.solvePatterns slot ps [m] := by
      intro row
      rw [solvePatterns_cons, flatMap_singleton, ih]
    rw [solvePatterns_cons, ih, flatMap_assoc]
    simp only [hrow]

theorem solvePatterns_mergeInto (slot : GraphSlot) (ps : List TriplePattern) (s : Binding)
    (rows : List Binding) :
    store.solvePatterns slot ps (mergeInto s rows) =
      mergeInto s (store.solvePatterns slot ps rows) := by
  induction ps generalizing rows with
  | nil => rfl
  | cons p ps ih =>
    rw [solvePatterns_cons, (factors_matchQuads slot p).flatMap_mergeInto, ih, solvePatterns_cons]

/-! ## Rows one at a time -/

theorem joinRows_perm_flatMap (rows bs : List Binding) :
    joinRows rows bs ~ rows.flatMap fun row => joinRows [row] bs := by
  simp only [joinRows_singleton]
  exact Perm.refl _

theorem solve_graph_var (v : Variable) (sub : Op) (g : ActiveGraph) (rows : List Binding) :
    (Op.graph (.var v) sub).solve store g rows = rows.flatMap fun row =>
      store.graphNames.flatMap fun name =>
        (row.extend v name).toOption.toList.flatMap fun row =>
          sub.solve store (.named name) [row] := by
  rw [Op.solve]
  refine congrArg (rows.flatMap ·) (funext fun row => congrArg (store.graphNames.flatMap ·) ?_)
  funext name
  cases row.extend v name with
  | ok m => exact (flatMap_singleton ..).symm
  | error c => rfl

/-- **Solving is linear.** What an operator makes of some rows is, up to order, what it makes of
each of them. A union is what mixes the order up: it deals with all rows on one side first. -/
theorem Op.solve_perm (op : Op) (g : ActiveGraph) (rows : List Binding) :
    op.solve store g rows ~ rows.flatMap fun row => op.solve store g [row] := by
  induction op generalizing g rows with
  | bgp ps => rw [solve, solvePatterns_eq_flatMap]; rfl
  | quadPattern name ps => rw [solve, solvePatterns_eq_flatMap]; rfl
  | datasetNames name => exact joinRows_perm_flatMap rows _
  | table t => exact joinRows_perm_flatMap rows _
  | extension ext => simp [solve]
  | join l r ihl ihr =>
    calc r.solve store g (l.solve store g rows)
        ~ (l.solve store g rows).flatMap fun m => r.solve store g [m] := ihr g _
      _ ~ (rows.flatMap fun row => l.solve store g [row]).flatMap fun m => r.solve store g [m] :=
          (ihl g rows).flatMap_right _
      _ = rows.flatMap fun row => (l.solve store g [row]).flatMap fun m => r.solve store g [m] :=
          flatMap_assoc
      _ ~ rows.flatMap fun row => r.solve store g (l.solve store g [row]) :=
          Perm.flatMap_left rows fun row _ => (ihr g _).symm
  | union l r ihl ihr =>
    calc l.solve store g rows ++ r.solve store g rows
        ~ (rows.flatMap fun row => l.solve store g [row]) ++
            rows.flatMap fun row => r.solve store g [row] := (ihl g rows).append (ihr g rows)
      _ ~ rows.flatMap fun row => l.solve store g [row] ++ r.solve store g [row] :=
          flatMap_append_perm rows _ _
  | filter e sub ih =>
    by_cases hc : coveredBy e.mentions sub.mentions
    · simp only [solve, if_pos hc]
      rw [← filter_flatMap]
      exact (ih g rows).filter e.admits
    · simp only [solve, if_neg hc]
      exact joinRows_perm_flatMap rows _
  | graph name sub ih =>
    cases name with
    | term name => exact ih (.named name) rows
    | var v =>
      simp only [solve_graph_var, flatMap_singleton]
      exact Perm.refl _
  | leftJoin l r c | order keys sub | project vars sub | distinct sub | slice offset limit sub =>
    exact joinRows_perm_flatMap rows _

theorem Op.solve_nil (op : Op) (g : ActiveGraph) : op.solve store g [] = [] :=
  (op.solve_perm g []).eq_nil

/-! ## Seeding -/

theorem flatMap_solve_toList (op : Op) (g : ActiveGraph) (row : Option Binding) :
    (row.toList.flatMap fun m => op.solve store g [m]) = op.solve store g row.toList := by
  cases row with
  | none => exact (op.solve_nil g).symm
  | some m => exact flatMap_singleton ..

theorem factors_solve {op : Op} {g : ActiveGraph}
    (h : ∀ s rows, op.solve store g (mergeInto s rows) = mergeInto s (op.solve store g rows)) :
    Factors fun row => op.solve store g [row] := by
  intro s a
  rw [flatMap_solve_toList, ← h, mergeInto_cons, mergeInto_nil, append_nil]

/-- A row of an operator extends a row that the operator yields by itself. -/
theorem exists_extends_of_mem_solve {op : Op} {g : ActiveGraph} {rows : List Binding} {m : Binding}
    (h : ∀ s rows, op.solve store g (mergeInto s rows) = mergeInto s (op.solve store g rows))
    (hm : m ∈ op.solve store g rows) : ∃ r ∈ op.solve store g [.empty], r.Extends m := by
  obtain ⟨a, -, ha⟩ := mem_flatMap.1 ((op.solve_perm g rows).mem_iff.1 hm)
  rw [← mergeInto_unit, h, mem_mergeInto] at ha
  obtain ⟨r, hr, hu⟩ := ha
  exact ⟨r, hr, Binding.extends_right_of_union? hu⟩

theorem filter_mergeInto {e : Expr} {s : Binding} {rows : List Binding}
    (h : ∀ m ∈ rows, ∀ m', m.Extends m' → e.admits m' = e.admits m) :
    (mergeInto s rows).filter e.admits = mergeInto s (rows.filter e.admits) := by
  induction rows with
  | nil => rfl
  | cons m rows ih =>
    have hrows := ih fun k hk => h k (mem_cons_of_mem m hk)
    rw [mergeInto_cons, filter_append, hrows]
    cases hu : s.union? m with
    | none =>
      by_cases ha : e.admits m
      · rw [filter_cons_of_pos ha, mergeInto_cons, hu]; rfl
      · rw [filter_cons_of_neg ha]; rfl
    | some m' =>
      have hm' : e.admits m' = e.admits m :=
        h m mem_cons_self m' (Binding.extends_right_of_union? hu)
      by_cases ha : e.admits m
      · rw [filter_cons_of_pos ha, mergeInto_cons, hu]
        simp [hm', ha]
      · rw [filter_cons_of_neg ha]
        simp [hm', ha]

/-- **A common binding factors out.** If the filters that rows are fed through are steady, then
merging a row into all rows that flow in comes to merging it into all rows that flow out. -/
theorem Op.solve_mergeInto {op : Op} (hf : op.SeededFilters (Steady store)) (g : ActiveGraph)
    (s : Binding) (rows : List Binding) :
    op.solve store g (mergeInto s rows) = mergeInto s (op.solve store g rows) := by
  induction op generalizing g s rows with
  | bgp ps => exact solvePatterns_mergeInto _ ps s rows
  | quadPattern name ps => exact solvePatterns_mergeInto _ ps s rows
  | datasetNames name => exact joinRows_mergeInto s rows _
  | table t => exact joinRows_mergeInto s rows _
  | extension ext => rfl
  | join l r ihl ihr => rw [solve, ihl hf.1, ihr hf.2, solve]
  | union l r ihl ihr => rw [solve, ihl hf.1, ihr hf.2, solve, mergeInto_append]
  | filter e sub ih =>
    by_cases hc : coveredBy e.mentions sub.mentions
    · obtain ⟨hsteady, hsub⟩ := hf hc
      simp only [solve, if_pos hc]
      rw [ih hsub]
      refine filter_mergeInto fun m hm m' hmm' => ?_
      obtain ⟨r, hr, hrm⟩ := exists_extends_of_mem_solve (ih hsub g) hm
      rw [hsteady g r hr m' (hrm.trans hmm'), hsteady g r hr m hrm]
    · simp only [solve, if_neg hc]
      exact joinRows_mergeInto s rows _
  | graph name sub ih =>
    cases name with
    | term name => exact ih hf (.named name) s rows
    | var v =>
      simp only [solve_graph_var]
      have hname (name : Term) : Factors fun row : Binding =>
          (row.extend v name).toOption.toList.flatMap fun row =>
            sub.solve store (.named name) [row] :=
        (lifts_extend v name).factors.flatMap (factors_solve (ih hf (.named name)))
      exact (Factors.overAll store.graphNames hname).flatMap_mergeInto s rows
  | leftJoin l r c | order keys sub | project vars sub | distinct sub | slice offset limit sub =>
    exact joinRows_mergeInto s rows _

theorem Op.solve_singleton {op : Op} (hf : op.SeededFilters (Steady store)) (g : ActiveGraph)
    (s : Binding) : op.solve store g [s] = mergeInto s (op.solve store g [.empty]) := by
  rw [← solve_mergeInto hf, mergeInto_unit]

/-! ## Joins -/

/-- Feeding a row into an operator comes to joining the row with what the operator yields by
itself. -/
def Op.Feedable (store : QuadStore) (op : Op) : Prop :=
  ∀ g s, op.solve store g [s] ~ mergeInto s (op.solve store g [.empty])

theorem Op.SeededFilters.feedable {op : Op} (hf : op.SeededFilters (Steady store)) :
    op.Feedable store := by
  intro g s
  rw [solve_singleton hf]

/-- Feeding rows in is joining them with what the operator yields by itself. -/
theorem Op.Feedable.solve_perm {op : Op} (h : op.Feedable store) (g : ActiveGraph)
    (rows : List Binding) :
    op.solve store g rows ~ joinRows rows (op.solve store g [.empty]) :=
  (op.solve_perm g rows).trans (Perm.flatMap_left rows fun row _ => h g row)

/-- **Joins commute** if rows can be fed into both sides. -/
theorem Op.Feedable.join_comm {l r : Op} (hl : l.Feedable store) (hr : r.Feedable store)
    (g : ActiveGraph) :
    (Op.join l r).solve store g [.empty] ~ (Op.join r l).solve store g [.empty] :=
  calc (Op.join l r).solve store g [.empty]
      ~ joinRows (l.solve store g [.empty]) (r.solve store g [.empty]) := hr.solve_perm g _
    _ ~ joinRows (r.solve store g [.empty]) (l.solve store g [.empty]) := joinRows_comm _ _
    _ ~ (Op.join r l).solve store g [.empty] := (hl.solve_perm g _).symm

/-! ## Joins with one row -/

/-- The table of a single row. -/
def Op.rowTable (row : Binding) : Op := .table ⟨[], [row]⟩

theorem Op.solve_rowTable (row : Binding) (g : ActiveGraph) :
    (rowTable row).solve store g [.empty] = [row] :=
  joinRows_unit [row]

theorem count_mergeInto (r' : Binding) (rows : List Binding) :
    (mergeInto r' rows).count r' = rows.countP fun r => r'.union? r == some r' := by
  unfold mergeInto count
  rw [countP_filterMap]
  refine countP_congr fun r _ => ?_
  cases r'.union? r <;> simp

/-- A filter lets a row through before it is merged into others exactly if it lets the results
through. So the rows it lets through there are counted in two ways. -/
theorem admits_eq_of_perm {e : Expr} {rows : List Binding} {r r' : Binding} (hr : r ∈ rows)
    (hext : r.Extends r')
    (h : (mergeInto r' rows).filter e.admits ~ mergeInto r' (rows.filter e.admits)) :
    e.admits r' = e.admits r := by
  have hself : (r'.union? r == some r') = true := by
    rw [Binding.union?_comm, Binding.union?_of_extends hext, beq_self_eq_true]
  have hcount := h.count_eq r'
  rw [count_mergeInto, countP_filter] at hcount
  cases hadm : e.admits r' with
  | false =>
    have hzero : ((mergeInto r' rows).filter e.admits).count r' = 0 :=
      count_eq_zero.2 fun hmem => by
        rw [(mem_filter.1 hmem).2] at hadm
        cases hadm
    rw [hzero] at hcount
    have hnone := countP_eq_zero.1 hcount.symm r hr
    rw [hself, Bool.true_and, Bool.not_eq_true] at hnone
    exact hnone.symm
  | true =>
    let absorbed := rows.filter fun r => r'.union? r == some r'
    have hlength : absorbed.countP e.admits = absorbed.length := by
      rw [count_filter hadm, count_mergeInto, countP_eq_length_filter] at hcount
      rw [countP_filter]
      simpa only [Bool.and_comm] using hcount.symm
    exact (countP_eq_length.1 hlength r (mem_filter.2 ⟨hr, hself⟩)).symm

theorem Op.feedable_rowTable (row : Binding) : (rowTable row).Feedable store :=
  SeededFilters.feedable trivial

/-- Joins with single rows tell whether rows can be fed into an operator. -/
theorem Op.feedable_iff_join_rowTable {op : Op} :
    op.Feedable store ↔ ∀ g row, (Op.join op (rowTable row)).solve store g [.empty] ~
      (Op.join (rowTable row) op).solve store g [.empty] := by
  constructor
  · exact fun h g row => h.join_comm (feedable_rowTable row) g
  · intro h g row
    have hleft : (Op.join (rowTable row) op).solve store g [.empty] = op.solve store g [row] := by
      rw [solve, solve_rowTable]
    have hperm := h g row
    rw [hleft] at hperm
    calc op.solve store g [row]
        ~ joinRows (op.solve store g [.empty]) [row] := hperm.symm
      _ ~ joinRows [row] (op.solve store g [.empty]) := joinRows_comm _ _
      _ ~ mergeInto row (op.solve store g [.empty]) := by rw [joinRows_singleton]

/-- **When a filter may be fed.** Rows can be fed through a filter exactly if it is steady, provided
that they can be fed into its subtree. -/
theorem Op.feedable_filter_iff {e : Expr} {sub : Op}
    (hc : coveredBy e.mentions sub.mentions = true) (hsub : sub.Feedable store) :
    (Op.filter e sub).Feedable store ↔ Steady store e sub := by
  have hsolve (g : ActiveGraph) (rows : List Binding) :
      (Op.filter e sub).solve store g rows = (sub.solve store g rows).filter e.admits := by
    simp only [solve, if_pos hc]
  constructor
  · intro h g r hr r' hext
    refine admits_eq_of_perm hr hext ?_
    have hperm := h g r'
    rw [hsolve, hsolve] at hperm
    exact ((hsub g r').filter e.admits).symm.trans hperm
  · intro h g row
    rw [hsolve, hsolve, ← filter_mergeInto fun m hm m' hext => h g m hm m' hext]
    exact (hsub g row).filter e.admits

end TripleQuery
