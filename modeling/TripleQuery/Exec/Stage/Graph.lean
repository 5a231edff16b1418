import TripleQuery.Exec.Step

/-!
# Named graphs

A subtree under a graph variable runs once per named graph and input row, compiled for that graph
with the row and the graph's name as its seed. Listing the names themselves needs no subtree. Both
ask the dataset for its graph names once, when the first row arrives.
-/

namespace TripleQuery

/-! ## Running a subtree in every graph -/

/-- The graphs to try for a row: the one it names, if that is a graph, or all of them. -/
def candidateGraphs (var : Variable) (names : List Term) (row : Binding) : List Term :=
  match row.get? var with
  | some name => names.filter (· == name)
  | none => names

/-- A stage over graphs after an input row. -/
def graphsRow (ctx : Context) (var : Variable) (sub : Op) (known : Option (List Term))
    (row : Binding) (input : Pipe) (state : RunState) : Step :=
  match ctx.loadNames known state with
  | (.ok names, events, state) =>
    ⟨.skip,
      .graphs .active var sub (some names) (.trying row (candidateGraphs var names row)) input,
      events, state⟩
  | (.error e, events, state) =>
    ⟨.fail e, .graphs .active var sub known .idle input, events, state⟩

/-- A stage over graphs after a step of its input. -/
def graphsStep (ctx : Context) (var : Variable) (sub : Op) (known : Option (List Term))
    (s : Step) : Step :=
  s.feedOr (.graphs .active var sub known .asking) (.graphs .active var sub known .idle)
    (graphsRow ctx var sub known) (Step.finish (.graphs .exhausted var sub known .idle))

/-- A stage over graphs on to the next graph for a row: the subtree is compiled for it. -/
def graphsTry (ctx : Context) (var : Variable) (sub : Op) (known : Option (List Term))
    (row : Binding) (candidates : List Term) (input : Pipe) (state : RunState) : Step :=
  match candidates with
  | [] => .quiet .skip (.graphs .active var sub known .idle input) state
  | name :: candidates =>
    let stay : Pipe := .graphs .active var sub known (.trying row candidates) input
    match row.extend var name with
    | .error _ => .quiet .skip stay state
    | .ok seed =>
      let compiled := compile sub (ctx.inGraph (.named name)) (.input (.single seed))
      match compiled.result with
      | .ok inner =>
        ⟨.skip, .within var sub known row candidates inner input, compiled.events, state⟩
      | .error e => ⟨.fail e, stay, compiled.events, state⟩

/-- A stage over graphs after a step of the subtree. -/
def withinStep (var : Variable) (sub : Op) (known : Option (List Term)) (row : Binding)
    (candidates : List Term) (input : Pipe) (s : Step) : Step :=
  s.feed (fun inner => .within var sub known row candidates inner input)
    (fun b inner => .quiet (.yield b) (.within var sub known row candidates inner input))
    (fun inner state =>
      ⟨.skip, .graphs .active var sub known (.trying row candidates) input, inner.close.2, state⟩)

/-! ## Listing the graphs -/

/-- The rows that a row and the graph names make: the row under each name that the variable can
have, or the row itself if the constant is a name. -/
def nameRows (name : TermPattern) (names : List Term) (row : Binding) : List Binding :=
  match name with
  | .term t => if names.contains t then [row] else []
  | .var v => names.filterMap fun t => (row.extend v t).toOption

/-- A listing after an input row. -/
def namesRow (ctx : Context) (name : TermPattern) (known : Option (List Term)) (row : Binding)
    (input : Pipe) (state : RunState) : Step :=
  match ctx.loadNames known state with
  | (.ok names, events, state) =>
    ⟨.skip, .names .active name (some names) (nameRows name names row) input, events, state⟩
  | (.error e, events, state) => ⟨.fail e, .names .active name known [] input, events, state⟩

/-- A listing after a step of its input. -/
def namesStep (ctx : Context) (name : TermPattern) (known : Option (List Term)) (s : Step) : Step :=
  s.feed (.names .active name known []) (namesRow ctx name known)
    (Step.finish (.names .exhausted name known []))

end TripleQuery
