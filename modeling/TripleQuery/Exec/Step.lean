import TripleQuery.Exec.Compile
import TripleQuery.Expr.Eval

/-!
# Steps of a pipeline

A pipeline runs in small steps. A step of a stage is one bounded action: at most one step of one
input and what the stage makes of it. Most steps give no row yet; whoever wants a row repeats them
until one comes, the pipeline ends or it fails. A step that has to wait for a shared input says
so, and the scope of that input reads one row before the next step.
-/

namespace TripleQuery

/-- What a step comes to. -/
inductive Signal where
  | yield (b : Binding)
  /-- Nothing yet. -/
  | skip
  /-- Nothing until the scope of a shared input has read on. -/
  | await
  /-- A failure; the pipeline stays as it is and can be asked again. -/
  | fail (e : ExecError)
  /-- No more rows. -/
  | done
deriving DecidableEq

namespace Signal

/-- Whether the step is one of several that answer the same question. -/
def isPending : Signal → Bool
  | skip | await => true
  | _ => false

end Signal

/-- The outcome of a step: the signal, the pipeline after it, what happened, and the state. -/
structure Step where
  signal : Signal
  pipe : Pipe
  events : List Event
  state : RunState

namespace Step

/-- A step without events. -/
def quiet (signal : Signal) (pipe : Pipe) (state : RunState) : Step := ⟨signal, pipe, [], state⟩

/-- The step with earlier events in front. -/
def after (events : List Event) (s : Step) : Step := { s with events := events ++ s.events }

/-- What a stage makes of a step of its input: it handles a row and the end, and keeps waiting
otherwise. `hold` is the stage while it waits, `drop` after a failure. -/
def feedOr (s : Step) (hold drop : Pipe → Pipe) (onRow : Binding → Pipe → RunState → Step)
    (onEnd : Pipe → RunState → Step) : Step :=
  match s.signal with
  | .yield b => (onRow b s.pipe s.state).after s.events
  | .done => (onEnd s.pipe s.state).after s.events
  | .fail _ => { s with pipe := drop s.pipe }
  | .skip | .await => { s with pipe := hold s.pipe }

/-- What a stage makes of a step of its input, if a failure leaves it as it is. -/
def feed (s : Step) (hold : Pipe → Pipe) (onRow : Binding → Pipe → RunState → Step)
    (onEnd : Pipe → RunState → Step) : Step :=
  s.feedOr hold hold onRow onEnd

/-- The last step of a stage whose input has run out: the input is closed. -/
def finish (ended : Pipe → Pipe) (input : Pipe) (state : RunState) : Step :=
  ⟨.done, ended input.close.1, input.close.2, state⟩

end Step

/-! ## Conditions -/

/-- Whether a condition holds of a row; a failing evaluation counts as no. -/
def Expr.admits (e : Expr) (b : Binding) : Bool :=
  match e.test b with
  | .ok keep => keep
  | .error _ => false

/-- Whether a condition, if there is one, holds of a row. -/
def admitsAll (condition : Option Expr) (b : Binding) : Bool := condition.all (·.admits b)

/-- The event of testing a condition, if there is one. -/
def testEvents (condition : Option Expr) (b : Binding) : List Event :=
  match condition with
  | some e => [.test e b]
  | none => []

/-! ## Questions to the dataset -/

/-- The items of a scan, the state after it, and its event. -/
def Context.openScan (ctx : Context) (r : ScanRequest) (state : RunState) :
    Except ExecError (List CursorItem) × RunState :=
  let reply := ctx.dataset.scan state.scans r
  (reply.result.mapError .dataset,
    { state with scans := state.scans + 1 }.cancelIf reply.cancels)

/-- The graph names, which are asked for once and then known; the events of asking and the state
after it. -/
def Context.loadNames (ctx : Context) (known : Option (List Term)) (state : RunState) :
    Except ExecError (List Term) × List Event × RunState :=
  match known with
  | some names => (.ok names, [], state)
  | none =>
    let reply := ctx.dataset.graphNames state.listings
    (reply.result.mapError .dataset, [.listing],
      { state with listings := state.listings + 1 }.cancelIf reply.cancels)

end TripleQuery
