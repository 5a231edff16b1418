import TripleQuery.Proofs.Answers.Refinement
import TripleQuery.Proofs.Solutions.Graphs

/-!
# Draining over the named graphs

There are three ways to range over the named graphs: a graph operator over a subtree, a pattern that
names the graph itself, and the listing of the graph names. Where two of them ask for the same, they
are drained to the same rows in the same order (`Op.graph_ranges_agree`).
-/

namespace TripleQuery

variable {ctx : Context} {store : QuadStore}

/-- Plain operators with the same solutions are drained to the same rows. -/
theorem yields_both (hdata : ctx.dataset = store.dataset) (hmax : ctx.config.maxRows = 0)
    {op op' : Op} (h : op.solve store ctx.activeGraph = op'.solve store ctx.activeGraph)
    (hop : op.Plain) (hop' : op'.Plain) (seed : Option (List Binding)) :
    ∃ rows, Yields ctx op (.ofRows seed) rows ∧ Yields ctx op' (.ofRows seed) rows := by
  refine ⟨_, yields_solve hop hdata hmax seed, ?_⟩
  rw [h]
  exact yields_solve hop' hdata hmax seed

/-- **The ways to range over graphs agree.** Over a store and without a limit on buffers, patterns
under a graph and the same patterns that name the graph are drained to the same rows in the same
order: for a constant name always, and for a variable if there is a pattern, whether the variable
is bound before, occurs in the patterns or neither. Over nothing at all and over the row that binds
nothing, a variable graph lists the graph names. -/
theorem Op.graph_ranges_agree (hdata : ctx.dataset = store.dataset)
    (hmax : ctx.config.maxRows = 0) (seed : Option (List Binding)) :
    (∀ name ps, ∃ rows, Yields ctx (.graph (.term name) (.bgp ps)) (.ofRows seed) rows ∧
        Yields ctx (.quadPattern (.term name) ps) (.ofRows seed) rows) ∧
      (∀ v ps, ps ≠ [] → ∃ rows, Yields ctx (.graph (.var v) (.bgp ps)) (.ofRows seed) rows ∧
        Yields ctx (.quadPattern (.var v) ps) (.ofRows seed) rows) ∧
      ∀ v, ∃ rows, Yields ctx (.graph (.var v) (.bgp [])) (.ofRows seed) rows ∧
        Yields ctx (.graph (.var v) (.table .unit)) (.ofRows seed) rows ∧
        Yields ctx (.datasetNames (.var v)) (.ofRows seed) rows := by
  refine ⟨fun name ps => ?constant, fun v ps hps => ?bound, fun v => ?names⟩
  case constant =>
    have hsolve : (Op.graph (.term name) (.bgp ps)).solve store ctx.activeGraph =
        (Op.quadPattern (.term name) ps).solve store ctx.activeGraph := rfl
    exact yields_both hdata hmax hsolve trivial trivial seed
  case bound =>
    exact yields_both hdata hmax (solve_graph_bgp hps ctx.activeGraph) trivial trivial seed
  case names =>
    have hnil : ∀ name m, (Op.bgp []).solve store (.named name) [m] = [m] := fun _ _ => rfl
    have hunit : ∀ name m, (Op.table .unit).solve store (.named name) [m] = [m] := by
      intro name m
      exact (joinRows_singleton m _).trans (mergeInto_unit m)
    obtain ⟨rows, hbgp, hnames⟩ :=
      yields_both hdata hmax (solve_graph_names v ctx.activeGraph hnil) trivial trivial seed
    obtain ⟨rows', htable, hnames'⟩ :=
      yields_both hdata hmax (solve_graph_names v ctx.activeGraph hunit) trivial trivial seed
    obtain rfl := hnames.unique hnames'
    exact ⟨rows, hbgp, htable, hnames⟩

namespace Instance

/-- An edge in each of two named graphs. -/
def twoGraphs : QuadStore := .ofList [⟨a, b, a, some a⟩, ⟨a, b, a, some b⟩]

/-- The edges from the node that the graph is named after. -/
def ownEdges : List TriplePattern := [⟨.var x, .term b, .var y⟩]

/-- Rows that leave the graph open, bind it to a name, and bind it to what is no name. -/
def graphSeeds : List Binding := [.empty, .single x b, .single x (.string "g")]

end Instance

open Instance in
theorem Op.graph_ranges_agree_bound :
    ∃ rows, Yields (context twoGraphs unlimited) (.graph (.var x) (.bgp ownEdges))
        (.ofRows (some graphSeeds)) rows ∧
      Yields (context twoGraphs unlimited) (.quadPattern (.var x) ownEdges)
        (.ofRows (some graphSeeds)) rows := by
  have hdata : (context twoGraphs unlimited).dataset = twoGraphs.dataset := rfl
  exact (graph_ranges_agree hdata rfl (some graphSeeds)).2.1 x ownEdges (List.cons_ne_nil _ _)

end TripleQuery
