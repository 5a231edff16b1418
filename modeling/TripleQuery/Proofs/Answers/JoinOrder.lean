import TripleQuery.Proofs.Answers.Seeding

/-!
# The order of joins

Both orders of a join of plain operators execute. They come to the same rows as long as every
filter that rows are fed through sees only what its own subtree binds, and a filter that sees more
is told apart by a join with a single row (`Op.join_order_iff_steady`). A filter counts as fit to be
fed if its variables are *mentioned* below it; they may be unbound in a row all the same, and then
the other side of a join decides about the row (`Op.join_order_matters`).
-/

namespace TripleQuery

open List

variable {ctx : Context} {store : QuadStore} {op l r : Op}

/-! ## Executing -/

/-- Without a limit a plain operator is executed to its solutions. -/
theorem executes_solve (hop : op.Plain) (hdata : ctx.dataset = store.dataset)
    (hmax : ctx.config.maxRows = 0) :
    Executes ctx op (.value (op.solve store ctx.activeGraph [.empty])) := by
  obtain ⟨p, hp, hruns⟩ := compile_runs hop hdata none
  have hexec := hruns.executes hp
  rwa [flow_ofRows hop hmax, Flow.outcome_ofRows] at hexec

/-- The two orders of a join are executed to the same rows, up to order. -/
def JoinsAlike (ctx : Context) (l r : Op) : Prop :=
  ∃ rows rows', Executes ctx (.join l r) (.value rows) ∧
    Executes ctx (.join r l) (.value rows') ∧ rows ~ rows'

theorem joinsAlike_iff (hl : l.Plain) (hr : r.Plain) (hdata : ctx.dataset = store.dataset)
    (hmax : ctx.config.maxRows = 0) (g : ActiveGraph) :
    JoinsAlike (ctx.inGraph g) l r ↔
      (Op.join l r).solve store g [.empty] ~ (Op.join r l).solve store g [.empty] := by
  have hdata' : (ctx.inGraph g).dataset = store.dataset := hdata
  have hlr : (Op.join l r).Plain := ⟨hl, hr⟩
  have hrl : (Op.join r l).Plain := ⟨hr, hl⟩
  constructor
  · rintro ⟨rows, rows', hrows, hrows', hperm⟩
    have heq := Outcome.value.inj (hrows.unique (executes_solve hlr hdata' hmax))
    have heq' := Outcome.value.inj (hrows'.unique (executes_solve hrl hdata' hmax))
    rw [heq, heq'] at hperm
    exact hperm
  · exact fun hperm =>
      ⟨_, _, executes_solve hlr hdata' hmax, executes_solve hrl hdata' hmax, hperm⟩

/-! ## When the order matters -/

/-- **The order of a join.** Both orders of a join are executed to lists of rows. These are the same
up to order if the filters that rows are fed through are steady. Conversely, put a filter over one
of the sides: it joins with every single row the same from left and right, in every graph, exactly
if it is steady itself. -/
theorem Op.join_order_iff_steady (hl : l.Plain) (hr : r.Plain)
    (hdata : ctx.dataset = store.dataset) (hmax : ctx.config.maxRows = 0) :
    (∃ rows rows', Executes ctx (.join l r) (.value rows) ∧
      Executes ctx (.join r l) (.value rows')) ∧
    (l.SeededFilters (Steady store) → r.SeededFilters (Steady store) → JoinsAlike ctx l r) ∧
    ∀ e, coveredBy e.mentions l.mentions = true → l.SeededFilters (Steady store) →
      ((∀ g row, JoinsAlike (ctx.inGraph g) (.filter e l) (.rowTable row)) ↔ Steady store e l) := by
  have hlr : (Op.join l r).Plain := ⟨hl, hr⟩
  have hrl : (Op.join r l).Plain := ⟨hr, hl⟩
  refine ⟨⟨_, _, executes_solve hlr hdata hmax, executes_solve hrl hdata hmax⟩, ?_, ?_⟩
  · intro hsl hsr
    exact (joinsAlike_iff hl hr hdata hmax ctx.activeGraph).2
      (hsl.feedable.join_comm hsr.feedable ctx.activeGraph)
  · intro e hc hsl
    have hfilter : (Op.filter e l).Plain := hl
    have hrow (row : Binding) : (rowTable row).Plain := trivial
    rw [← feedable_filter_iff hc hsl.feedable, feedable_iff_join_rowTable]
    exact forall_congr' fun g => forall_congr' fun row =>
      joinsAlike_iff hfilter (hrow row) hdata hmax g

open Instance in
theorem Op.join_order_iff_steady_edges :
    (∃ rows rows', Executes (context edges unlimited) (.join edge xs) (.value rows) ∧
      Executes (context edges unlimited) (.join xs edge) (.value rows')) ∧
    JoinsAlike (context edges unlimited) edge xs ∧
    ∀ g row, JoinsAlike ((context edges unlimited).inGraph g) (.filter atEnd edge)
      (.rowTable row) := by
  have hdata : (context edges unlimited).dataset = edges.dataset := rfl
  have hedge : edge.SeededFilters (Steady edges) := trivial
  have hxs : xs.SeededFilters (Steady edges) := trivial
  have hcovered : coveredBy atEnd.mentions edge.mentions = true := rfl
  have hsteady : Steady edges atEnd edge := (bindsAll_bgp hcovered).steady
  obtain ⟨hexecutes, halike, hiff⟩ :=
    join_order_iff_steady (l := edge) (r := xs) trivial trivial hdata rfl
  exact ⟨hexecutes, halike hedge hxs, (hiff atEnd hcovered hedge).2 hsteady⟩

namespace Instance

/-- A table that mentions the first variable, in rows that leave it unbound. -/
def ys : Op := .table ⟨[x, y], [.single y a]⟩

/-- A filter on the variable that the table leaves unbound. -/
def guarded : Op := .filter (.compare .eq (.var x) (.const a)) ys

/-- A row that binds the variable. -/
def given : Op := .table ⟨[x], [.single x a]⟩

end Instance

open Instance in
/-- A row that reaches a filter from the other side of a join can decide what the filter lets
through. -/
theorem Op.join_order_matters :
    given.Plain ∧ guarded.Plain ∧
    execute (context .empty unlimited) 20 (.join given guarded) .initial =
      .value [.ofPairs [(x, a), (y, a)]] ∧
    execute (context .empty unlimited) 20 (.join guarded given) .initial = .value [] ∧
    ¬JoinsAlike (context .empty unlimited) given guarded := by
  have hdata : (context .empty unlimited).dataset = QuadStore.empty.dataset := rfl
  have hgiven : given.Plain := trivial
  have hguarded : guarded.Plain := trivial
  refine ⟨hgiven, hguarded, rfl, rfl, fun halike => ?_⟩
  have hperm := (joinsAlike_iff hgiven hguarded hdata rfl .default).1 halike
  have hlength : 1 = 0 := hperm.length_eq
  cases hlength

end TripleQuery
