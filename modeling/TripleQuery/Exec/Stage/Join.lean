import TripleQuery.Exec.Step

/-!
# Joins

A nested-loop join reads its right side once and then tries every left row against all of its
rows. An optional join by probing compiles its right side anew for every left row, with that row
as the only seed. Either way a left row without a partner is emitted alone in an optional join.
-/

namespace TripleQuery

/-! ## Nested loops -/

/-- A join that has ended: both sides are closed. -/
def joinFinish (kind : JoinKind) (condition : Option Expr) (left right : Pipe)
    (state : RunState) : Step :=
  ⟨.done, .join .exhausted kind condition (.gathering #[]) left.close.1 right.close.1,
    left.close.2 ++ right.close.2, state⟩

/-- A join after a row of its right side. -/
def joinGather (ctx : Context) (kind : JoinKind) (condition : Option Expr) (rows : Array Binding)
    (left : Pipe) (row : Binding) (right : Pipe) (state : RunState) : Step :=
  let rows := rows.push row
  .quiet (if exceeds rows.size ctx.maxRows then .fail (.tooLarge rows.size ctx.maxRows) else .skip)
    (.join .active kind condition (.gathering rows) left right) state

/-- A join after the end of its right side, which is closed. Without right rows an inner join has
ended. -/
def joinGathered (kind : JoinKind) (condition : Option Expr) (rows : Array Binding)
    (left right : Pipe) (state : RunState) : Step :=
  let closed := right.close.1
  (if kind = .inner ∧ rows.isEmpty then joinFinish kind condition left closed state
    else .quiet .skip (.join .active kind condition (.idle rows.toList) left closed) state).after
      right.close.2

/-- A join after a step of its right side, which it is still reading. -/
def joinRightStep (ctx : Context) (kind : JoinKind) (condition : Option Expr)
    (rows : Array Binding) (left : Pipe) (s : Step) : Step :=
  s.feed (.join .active kind condition (.gathering rows) left)
    (joinGather ctx kind condition rows left) (joinGathered kind condition rows left)

/-- A join after a step of its left side. -/
def joinLeftStep (kind : JoinKind) (condition : Option Expr) (rows : List Binding) (right : Pipe)
    (s : Step) : Step :=
  s.feed (fun left => .join .active kind condition (.idle rows) left right)
    (fun row left =>
      .quiet .skip (.join .active kind condition (.trying rows row rows false) left right))
    (fun left => joinFinish kind condition left right)

/-- A join after trying a left row against one more right row. -/
def joinTry (kind : JoinKind) (condition : Option Expr) (rows : List Binding) (row : Binding)
    (untried : List Binding) (matched : Bool) (left right : Pipe) (state : RunState) : Step :=
  match untried with
  | [] =>
    .quiet (if kind = .left ∧ !matched then .yield row else .skip)
      (.join .active kind condition (.idle rows) left right) state
  | other :: untried =>
    let stay (matched : Bool) : Pipe :=
      .join .active kind condition (.trying rows row untried matched) left right
    match row.merge other with
    | .error _ => .quiet .skip (stay matched) state
    | .ok merged =>
      if admitsAll condition merged then
        ⟨.yield merged, stay true, testEvents condition merged, state⟩
      else ⟨.skip, stay matched, testEvents condition merged, state⟩

/-! ## Probing -/

/-- An optional join after a left row: the right side is compiled for it. -/
def optionalRow (ctx : Context) (right : Op) (condition : Option Expr) (graph : ActiveGraph)
    (row : Binding) (input : Pipe) (state : RunState) : Step :=
  let compiled := compile right (ctx.inGraph graph) (.input (.single row))
  match compiled.result with
  | .ok probe =>
    ⟨.skip, .probing right condition graph row false probe input, compiled.events, state⟩
  | .error e => ⟨.fail e, .optional .active right condition graph input, compiled.events, state⟩

/-- An optional join after a step of its left side. -/
def optionalStep (ctx : Context) (right : Op) (condition : Option Expr) (graph : ActiveGraph)
    (s : Step) : Step :=
  s.feed (.optional .active right condition graph) (optionalRow ctx right condition graph)
    (Step.finish (.optional .exhausted right condition graph))

/-- An optional join after a row of its probe. -/
def probeRow (right : Op) (condition : Option Expr) (graph : ActiveGraph) (left : Binding)
    (matched : Bool) (input : Pipe) (row : Binding) (probe : Pipe) (state : RunState) : Step :=
  if admitsAll condition row then
    ⟨.yield row, .probing right condition graph left true probe input, testEvents condition row,
      state⟩
  else
    ⟨.skip, .probing right condition graph left matched probe input, testEvents condition row,
      state⟩

/-- An optional join after the end of its probe, which is closed. -/
def probeEnd (right : Op) (condition : Option Expr) (graph : ActiveGraph) (left : Binding)
    (matched : Bool) (input probe : Pipe) (state : RunState) : Step :=
  ⟨if matched then .skip else .yield left, .optional .active right condition graph input,
    probe.close.2, state⟩

/-- An optional join after a step of its probe. -/
def probeStep (right : Op) (condition : Option Expr) (graph : ActiveGraph) (left : Binding)
    (matched : Bool) (input : Pipe) (s : Step) : Step :=
  s.feed (fun probe => .probing right condition graph left matched probe input)
    (probeRow right condition graph left matched input)
    (probeEnd right condition graph left matched input)

end TripleQuery
