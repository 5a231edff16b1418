import TripleQuery.Proofs.Answers.JoinOrder
import TripleQuery.Proofs.Answers.Limits
import TripleQuery.Proofs.Solutions.Growth

/-!
# Growing data

Positive queries are monotone in the data (`Op.growth_keeps_rows`). More quads never cost a row:
executed over a larger store, a positive operator gives every row at least as often.
-/

namespace TripleQuery

/-- **More data, more rows.** Without a limit on buffers, a positive operator is executed to rows
over a store and over every larger one, and each row occurs over the larger one at least as
often. -/
theorem Op.growth_keeps_rows {op : Op} (hop : op.Positive) (ctx : Context)
    (hmax : ctx.config.maxRows = 0) {store store' : QuadStore}
    (hquads : ∀ q ∈ store.quads, q ∈ store'.quads) :
    ∃ rows rows', Executes (ctx.given store.dataset) op (.value rows) ∧
      Executes (ctx.given store'.dataset) op (.value rows') ∧
      ∀ row, rows.count row ≤ rows'.count row := by
  have hexecutes (s : QuadStore) : Executes (ctx.given s.dataset) op
      (.value (op.solve s ctx.activeGraph [.empty])) := by
    have hdata : (ctx.given s.dataset).dataset = s.dataset := rfl
    exact executes_solve hop.plain hdata hmax
  have hsub := Op.solve_subperm hquads hop ctx.activeGraph (List.Subperm.refl [Binding.empty])
  exact ⟨_, _, hexecutes store, hexecutes store', hsub.count_le⟩

namespace Instance

/-- The edges, and one more in a named graph. -/
def moreEdges : QuadStore := edges.insert ⟨a, b, b, some (.iri "g")⟩

/-- Where edges come from, in the default graph or in a named one. -/
def sources : Op := .distinct (.project [x] (.union edge (.graph (.var ⟨"g"⟩) edge)))

end Instance

open Instance in
theorem Op.growth_keeps_rows_edges :
    Executes (context edges unlimited) sources (.value [.single x a]) ∧
      ∃ rows, Executes (context moreEdges unlimited) sources (.value rows) ∧
        1 ≤ rows.count (.single x a) := by
  have hquads : ∀ q ∈ edges.quads, q ∈ moreEdges.quads :=
    fun q hq => QuadStore.mem_insert.2 (.inr hq)
  have hpositive : sources.Positive := ⟨trivial, trivial⟩
  obtain ⟨rows, rows', hrows, hrows', hcount⟩ :=
    growth_keeps_rows hpositive (context edges unlimited) rfl hquads
  have hrun : execute (context edges unlimited) 20 sources .initial = .value [.single x a] := rfl
  obtain rfl := Outcome.value.inj (hrows.eq_of_execute rfl hrun nofun)
  exact ⟨hrows, rows', hrows', hcount (.single x a)⟩

open Instance in
/-- A row without a partner is lost when a partner arrives. -/
example :
    execute (context .empty unlimited) 20 (.leftJoin xs edge none) .initial =
      .value [.single x a, .single x b] ∧
    execute (context edges unlimited) 20 (.leftJoin xs edge none) .initial =
      .value [.ofPairs [(x, a), (y, a)], .single x b] := ⟨rfl, rfl⟩

end TripleQuery
