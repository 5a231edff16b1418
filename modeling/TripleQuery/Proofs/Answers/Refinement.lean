import TripleQuery.Proofs.Answers.Basic
import TripleQuery.Proofs.Pipe.Operators

/-!
# Pipelines refine solutions

A plain operator over a store, compiled and drained, gives its solutions: all of them, in order and
once each, as long as no buffer is limited (`Op.drain_refines_solve`). With limits, and whatever
else is configured, a pipeline that is drained to its end gives the same rows
(`Op.drain_config_independent`).
-/

namespace TripleQuery

variable {ctx : Context} {store : QuadStore} {op : Op}

/-! ## Compiling and running -/

/-- The seed of some rows, or the identity. -/
def Seed.ofRows : Option (List Binding) → Seed
  | none => .identity
  | some rows => .input (.bindings .created rows)

theorem feeds_ofRows (ctx : Context) (rows : Option (List Binding)) :
    Feeds ctx none (.ofRows rows) (rows.map .ofRows) := by
  cases rows with
  | none => exact .identity
  | some rows => exact .input (fun _ => Runs.bindings rows rfl) trivial

theorem approx_ofRows (m : Nat) (rows : Option (List Binding)) :
    Approx m (.ofSeed (rows.map .ofRows)) (rows.getD [.empty]) := by
  cases rows with
  | none => exact .row .empty .done
  | some rows => exact .ofRows rows

/-- A plain operator compiles, and its pipeline comes to the flow of the operator. -/
theorem compile_runs (hop : op.Plain) (hdata : ctx.dataset = store.dataset)
    (rows : Option (List Binding)) : ∃ p, compile op ctx (.ofRows rows) = .ok p ∧
      Runs ctx none 0 p
        (op.flow store.source ctx.config ctx.activeGraph (rows.map .ofRows)) :=
  ⟨op.pipe ctx ctx.activeGraph (.ofRows rows), compile_plain hop ctx ctx.activeGraph _,
    Op.pipe_gives hop (hdata.trans store.dataset_source.symm) ctx.activeGraph
      (feeds_ofRows ctx rows) 0⟩

/-- The flow of an operator without a limit. -/
theorem flow_ofRows (hop : op.Plain) (hmax : ctx.config.maxRows = 0) (g : ActiveGraph)
    (rows : Option (List Binding)) :
    op.flow store.source ctx.config g (rows.map .ofRows) =
      .ofRows (op.solve store g (rows.getD [.empty])) := by
  have happrox : Approx ctx.config.maxRows.toNat
      (op.flow store.source ctx.config g (rows.map .ofRows))
      (op.solve store g (rows.getD [.empty])) :=
    op.flow_approx ctx.config hop g (approx_ofRows _ rows)
  have hlimit : ctx.config.maxRows.toNat = 0 := by
    rw [hmax]
    rfl
  rw [hlimit] at happrox
  exact happrox.eq_ofRows

/-- The pipeline of an operator over a seed is there and is drained to the rows. -/
def Yields (ctx : Context) (op : Op) (seed : Seed) (rows : List Binding) : Prop :=
  ∃ p, compile op ctx seed = .ok p ∧ p.Drains ctx (.value rows)

theorem yields_solve (hop : op.Plain) (hdata : ctx.dataset = store.dataset)
    (hmax : ctx.config.maxRows = 0) (rows : Option (List Binding)) :
    Yields ctx op (.ofRows rows) (op.solve store ctx.activeGraph (rows.getD [.empty])) := by
  obtain ⟨p, hp, hruns⟩ := compile_runs hop hdata rows
  refine ⟨p, hp, ?_⟩
  have hdrains := hruns.drains
  rwa [flow_ofRows hop hmax, Flow.outcome_ofRows] at hdrains

/-- What an operator yields by itself in a graph. -/
theorem yields_alone (hop : op.Plain) (hdata : ctx.dataset = store.dataset)
    (hmax : ctx.config.maxRows = 0) (g : ActiveGraph) :
    Yields (ctx.inGraph g) op .identity (op.solve store g [.empty]) := by
  have hdata' : (ctx.inGraph g).dataset = store.dataset := hdata
  exact yields_solve hop hdata' hmax none

/-- An operator yields one list of rows over a seed. -/
theorem Yields.unique {seed : Seed} {rows rows' : List Binding} (h : Yields ctx op seed rows)
    (h' : Yields ctx op seed rows') : rows = rows' := by
  obtain ⟨p, hp, hdrains⟩ := h
  obtain ⟨p', hp', hdrains'⟩ := h'
  obtain rfl : p = p' := by
    rw [hp] at hp'
    exact Except.ok.inj (congrArg Compiled.result hp')
  exact Outcome.value.inj (hdrains.unique hdrains')

/-! ## A small instance -/

namespace Instance

def x : Variable := ⟨"x"⟩

def y : Variable := ⟨"y"⟩

def a : Term := .iri "a"

def b : Term := .iri "b"

/-- Rows of the first variable. -/
def xs : Op := .table ⟨[x], [.single x a, .single x b]⟩

/-- The pattern of an edge from the first variable to the second. -/
def edge : Op := .bgp [⟨.var x, .term b, .var y⟩]

/-- Whether the second variable is what the edge leads to. -/
def atEnd : Expr := .compare .eq (.var y) (.const a)

/-- One edge, in the default graph. -/
def edges : QuadStore := .ofList [⟨a, b, a, none⟩]

/-- A context over a store. -/
def context (store : QuadStore) (config : Config) : Context :=
  ⟨store.dataset, .empty, config, .default⟩

/-- The standard configuration, without a limit. -/
def unlimited : Config := { Config.standard with maxRows := 0 }

/-- Each row with the edges from it, if there are any; then the edges among them once more. -/
def query : Op := .join (.leftJoin xs edge (some atEnd)) (.filter atEnd edge)

end Instance

/-! ## Refinement -/

/-- **Draining refines solving.** Without a limit on buffers, a plain operator over a store compiles
for every list of rows that flow in, and draining its pipeline gives its solutions. -/
theorem Op.drain_refines_solve (hop : op.Plain) (hdata : ctx.dataset = store.dataset)
    (hmax : ctx.config.maxRows = 0) (rows : List Binding) :
    ∃ p, compile op ctx (.input (.bindings .created rows)) = .ok p ∧
      p.Drains ctx (.value (op.solve store ctx.activeGraph rows)) :=
  yields_solve hop hdata hmax (some rows)

open Instance in
theorem Op.drain_refines_solve_edges :
    ∃ p, compile query (context edges unlimited) (.input (.bindings .created [.empty])) = .ok p ∧
      p.Drains (context edges unlimited) (.value [.ofPairs [(x, a), (y, a)]]) := by
  have hplain : query.Plain := ⟨⟨trivial, trivial⟩, trivial⟩
  have hdata : (context edges unlimited).dataset = edges.dataset := rfl
  exact drain_refines_solve hplain hdata rfl [.empty]

/-- **Configurations agree.** Two configurations never give different rows: if an operator is
compiled under each and both pipelines are drained to the end, the rows and their order are the
same. -/
theorem Op.drain_config_independent (hop : op.Plain) {ctx₁ ctx₂ : Context}
    (hdata₁ : ctx₁.dataset = store.dataset) (hdata₂ : ctx₂.dataset = store.dataset)
    (hgraph : ctx₁.activeGraph = ctx₂.activeGraph) (rows : Option (List Binding)) {p₁ p₂ : Pipe}
    (hp₁ : (compile op ctx₁ (.ofRows rows)).result = .ok p₁)
    (hp₂ : (compile op ctx₂ (.ofRows rows)).result = .ok p₂)
    {fuel₁ fuel₂ : Nat} {state₁ state₂ : RunState} {log₁ log₂ : Array Event}
    (hs₁ : state₁.cancelled = false) (hs₂ : state₂.cancelled = false)
    {rows₁ rows₂ : List Binding}
    (hv₁ : (p₁.drain ctx₁ fuel₁ state₁ log₁).outcome = .value rows₁)
    (hv₂ : (p₂.drain ctx₂ fuel₂ state₂ log₂).outcome = .value rows₂) : rows₁ = rows₂ := by
  -- what anyone drains are the solutions, which know nothing of the configuration
  have hsolve {ctx : Context} (hdata : ctx.dataset = store.dataset) {p : Pipe}
      (hp : (compile op ctx (.ofRows rows)).result = .ok p) {fuel : Nat} {state : RunState}
      {log : Array Event} (hs : state.cancelled = false) {bs : List Binding}
      (hv : (p.drain ctx fuel state log).outcome = .value bs) :
      op.solve store ctx.activeGraph (rows.getD [.empty]) = bs := by
    obtain ⟨p', hp', hruns⟩ := compile_runs hop hdata rows
    obtain rfl : p' = p := by
      rw [hp'] at hp
      exact Except.ok.inj hp
    have happrox : Approx ctx.config.maxRows.toNat
        (op.flow store.source ctx.config ctx.activeGraph (rows.map .ofRows))
        (op.solve store ctx.activeGraph (rows.getD [.empty])) :=
      op.flow_approx ctx.config hop ctx.activeGraph (approx_ofRows _ rows)
    exact happrox.rows_eq_of_outcome (hruns.drains.eq_of_value hs hv)
  have hsolve₁ := hsolve hdata₁ hp₁ hs₁ hv₁
  rw [hgraph] at hsolve₁
  exact hsolve₁.symm.trans (hsolve hdata₂ hp₂ hs₂ hv₂)

namespace Instance

/-- The configuration that differs in everything from the standard one. -/
def plain : Config := ⟨0, .exhaustive, false, false⟩

/-- The pipeline of the query under a configuration. -/
def pipeline (config : Config) : Pipe := query.pipe (context edges config) .default .identity

end Instance

open Instance in
theorem Op.drain_config_independent_edges :
    ((pipeline .standard).drain (context edges .standard) 100 .initial #[]).outcome =
      .value [.ofPairs [(x, a), (y, a)]] ∧
    ((pipeline plain).drain (context edges plain) 100 .initial #[]).outcome =
      .value [(Binding.single x a).insert y a] ∧
    [Binding.ofPairs [(x, a), (y, a)]] = [(Binding.single x a).insert y a] := by
  have hplain : query.Plain := ⟨⟨trivial, trivial⟩, trivial⟩
  have hcompile (config : Config) :
      (compile query (context edges config) (.ofRows none)).result = .ok (pipeline config) :=
    congrArg Compiled.result (compile_plain hplain (context edges config) .default .identity)
  have hv₁ : ((pipeline .standard).drain (context edges .standard) 100 .initial #[]).outcome =
      .value [.ofPairs [(x, a), (y, a)]] := rfl
  have hv₂ : ((pipeline plain).drain (context edges plain) 100 .initial #[]).outcome =
      .value [(Binding.single x a).insert y a] := rfl
  have hdata (config : Config) : (context edges config).dataset = edges.dataset := rfl
  exact ⟨hv₁, hv₂, drain_config_independent hplain (hdata .standard) (hdata plain) rfl none
    (hcompile .standard) (hcompile plain) rfl rfl hv₁ hv₂⟩

end TripleQuery
