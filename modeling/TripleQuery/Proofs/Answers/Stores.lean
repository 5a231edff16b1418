import TripleQuery.Proofs.Answers.Growth
import TripleQuery.Proofs.Answers.Patterns
import TripleQuery.Proofs.Dataset.Insertions

/-!
# Queries over what was inserted

A context over a store by graphs is a context over the list of its quads, since the two are the
same dataset (`GraphStore.flat_dataset`). So whatever calls have made the store, a query over it
gives the solutions among the quads that were inserted (`GraphStore.after_yields`), and patterns
give the rows under which each of them is such a quad (`GraphStore.after_patterns_drain`). Further
calls cost a positive query no row (`GraphStore.after_append_keeps_rows`).
-/

namespace TripleQuery

namespace GraphStore

open List

variable {ctx : Context} {op : Op}

/-- The quads that some calls inserted, as one list of quads. -/
def collected (calls : List Insertion) : QuadStore := .ofList (calls.map (·.inserted))

theorem mem_collected {calls : List Insertion} {q : Quad} :
    q ∈ (collected calls).quads ↔ ∃ call ∈ calls, call.inserted = q := by
  rw [collected, QuadStore.mem_ofList, mem_map]

/-- Asked after some calls, the store answers as the list of the quads that they inserted. -/
theorem after_dataset (calls : List Insertion) :
    (after calls).dataset = (collected calls).dataset := by
  rw [← flat_dataset, after_eq, flat_ofList, collected]

/-- **Queries see what was inserted.** Without a limit on buffers, a plain operator over the store
after some calls compiles, and draining its pipeline gives its solutions among the quads that the
calls inserted. -/
theorem after_yields (hop : op.Plain) {calls : List Insertion}
    (hdata : ctx.dataset = (after calls).dataset) (hmax : ctx.config.maxRows = 0)
    (rows : Option (List Binding)) :
    Yields ctx op (.ofRows rows)
      (op.solve (collected calls) ctx.activeGraph (rows.getD [.empty])) :=
  yields_solve hop (hdata.trans (after_dataset calls)) hmax rows

/-- **Patterns match what was inserted.** The scans of some patterns over a row are drained to the
rows that extend it by the variables that the patterns bind in the slot and under which every
pattern is a quad that one of the calls inserted, each of them once. -/
theorem after_patterns_drain {calls : List Insertion}
    (hdata : ctx.dataset = (after calls).dataset) (slot : GraphSlot) (ps : List TriplePattern)
    (s : Binding) :
    ∃ rows, (compilePatterns slot none ps (.input (.single s))).Drains ctx (.value rows) ∧
      rows.Nodup ∧ ∀ m, m ∈ rows ↔ s.ExtendsBy (slot.scanVars ps) m ∧
        ∀ p ∈ ps, ∃ call ∈ calls, p.Becomes slot m call.inserted := by
  refine ⟨(collected calls).solvePatterns slot ps [s],
    patterns_drain_solved (hdata.trans (after_dataset calls)) slot ps s,
    nodup_solvePatterns, fun m => ?_⟩
  rw [mem_solvePatterns, QuadStore.solves_iff]
  refine and_congr_right fun _ => forall₂_congr fun p _ => ?_
  simp only [mem_collected]
  constructor
  · rintro ⟨q, ⟨call, hcall, rfl⟩, hbecomes⟩
    exact ⟨call, hcall, hbecomes⟩
  · rintro ⟨call, hcall, hbecomes⟩
    exact ⟨call.inserted, ⟨call, hcall, rfl⟩, hbecomes⟩

/-- **Further insertions cost no row.** Without a limit on buffers, a positive operator is executed
to rows after some calls and after more calls, and each row occurs after more calls at least as
often. -/
theorem after_append_keeps_rows (hop : op.Positive) (ctx : Context)
    (hmax : ctx.config.maxRows = 0) (calls more : List Insertion) :
    ∃ rows rows', Executes (ctx.given (after calls).dataset) op (.value rows) ∧
      Executes (ctx.given (after (calls ++ more)).dataset) op (.value rows') ∧
      rows <+~ rows' := by
  have hexecutes (calls : List Insertion) : Executes (ctx.given (after calls).dataset) op
      (.value (op.solve (collected calls) ctx.activeGraph [.empty])) :=
    executes_solve hop.plain (after_dataset calls) hmax
  have hquads : (collected calls).quads ⊆ (collected (calls ++ more)).quads := by
    intro q hq
    obtain ⟨call, hcall, hq⟩ := mem_collected.1 hq
    exact mem_collected.2 ⟨call, mem_append_left more hcall, hq⟩
  exact ⟨_, _, hexecutes calls, hexecutes (calls ++ more),
    Op.solve_subperm hquads hop ctx.activeGraph (Subperm.refl _)⟩

end GraphStore

end TripleQuery
