import TripleQuery.Proofs.Answers.Refinement
import TripleQuery.Proofs.Solutions.Patterns

/-!
# Draining patterns

The scans of some patterns over one row, drained, give exactly the rows that solve the patterns,
each of them once (`QuadStore.patterns_drain_solutions`). So the order in which the patterns are
scanned decides the order of the rows and nothing else.
-/

namespace TripleQuery

open List

variable {ctx : Context} {store : QuadStore}

/-- The scans of some patterns over a row are drained to what matching the patterns finds. -/
theorem patterns_drain_solved (hdata : ctx.dataset = store.dataset) (slot : GraphSlot)
    (ps : List TriplePattern) (s : Binding) :
    (compilePatterns slot none ps (.input (.single s))).Drains ctx
      (.value (store.solvePatterns slot ps [s])) := by
  have hruns : Runs ctx none 0 (compilePatterns slot none ps (.input (.single s)))
      (store.source.scanAll slot ps (.single s)) :=
    Runs.patterns (hdata.trans store.dataset_source.symm) slot none ps (feeds_single s) 0
  have happrox : Approx 0 (store.source.scanAll slot ps (.single s))
      (store.solvePatterns slot ps [s]) := (Approx.ofRows [s]).scanAll slot ps
  rw [happrox.eq_ofRows] at hruns
  have hdrains := hruns.drains
  rwa [Flow.outcome_ofRows] at hdrains

/-- **Patterns give their solutions.** Over a store, the scans of some patterns over a row are
drained to the rows that solve the patterns, each of them once; and in another order the patterns
give the same rows in another order. -/
theorem QuadStore.patterns_drain_solutions (hdata : ctx.dataset = store.dataset)
    (slot : GraphSlot) (ps : List TriplePattern) (s : Binding) :
    ∃ rows, (compilePatterns slot none ps (.input (.single s))).Drains ctx (.value rows) ∧
      rows.Nodup ∧ (∀ m, m ∈ rows ↔ store.Solves slot ps s m) ∧
      ∀ ps', ps' ~ ps → ∃ rows',
        (compilePatterns slot none ps' (.input (.single s))).Drains ctx (.value rows') ∧
          rows' ~ rows := by
  refine ⟨store.solvePatterns slot ps [s], patterns_drain_solved hdata slot ps s,
    nodup_solvePatterns, fun m => mem_solvePatterns, fun ps' hperm => ?_⟩
  refine ⟨store.solvePatterns slot ps' [s], patterns_drain_solved hdata slot ps' s, ?_⟩
  refine (perm_ext_iff_of_nodup nodup_solvePatterns nodup_solvePatterns).2 fun m => ?_
  rw [mem_solvePatterns, mem_solvePatterns]
  constructor
  · exact fun h => h.perm hperm
  · exact fun h => h.perm hperm.symm

open Instance in
theorem QuadStore.patterns_drain_solutions_edges :
    ∃ rows, (compilePatterns .default none [⟨.var x, .term b, .var y⟩, ⟨.var y, .term b, .var x⟩]
        (.input (.single .empty))).Drains (context edges unlimited) (.value rows) ∧
      rows.Nodup ∧ ∀ m, m ∈ rows ↔
        edges.Solves .default [⟨.var x, .term b, .var y⟩, ⟨.var y, .term b, .var x⟩] .empty m := by
  have hdata : (context edges unlimited).dataset = edges.dataset := rfl
  obtain ⟨rows, hdrains, hnodup, hmem, -⟩ := patterns_drain_solutions hdata .default
    [⟨.var x, .term b, .var y⟩, ⟨.var y, .term b, .var x⟩] .empty
  exact ⟨rows, hdrains, hnodup, hmem⟩

end TripleQuery
