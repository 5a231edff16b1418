import TripleQuery.Exec.Stage.Graph
import TripleQuery.Exec.Stage.Join
import TripleQuery.Exec.Stage.Rows
import TripleQuery.Exec.Stage.Scan
import TripleQuery.Exec.Stage.Shared

/-!
# Running pipelines

`Pipe.step` is one step of a pipeline. Asking for a row is repeating steps; since a realization
can build a pipeline that never comes to a row, the number of steps is bounded by an explicit
amount of fuel, and running out of it is an outcome of its own.
-/

namespace TripleQuery

/-- One step of a pipeline. `scope` are the rows of the shared input it stands in the scope of. -/
def Pipe.step (ctx : Context) (scope : Option SharedRows) (p : Pipe) (state : RunState) : Step :=
  if p.isSpent then .quiet .done p state
  else match p with
  | .bindings _ [] => .quiet .done (.bindings .exhausted []) state
  | .bindings _ (row :: rest) => .quiet (.yield row) (.bindings .active rest) state
  | .script _ [] => .quiet .done (.script .exhausted []) state
  | .script _ (.row b :: rest) => .quiet (.yield b) (.script .active rest) state
  | .script _ (.fail e :: rest) => .quiet (.fail e) (.script .active rest) state
  | .tracked id calling input =>
    let s := input.step ctx scope state
    { s with
      pipe := .tracked id s.signal.isPending s.pipe
      events := if calling then s.events else .pulled id :: s.events }
  | .replay phase position => replayStep scope phase position state
  | .share shared input body =>
    let s := body.step ctx (some shared) state
    if s.events.any Event.isRelease then shareSettle shared input s
    else if s.signal = .await then
      shareRead shared.clear s.pipe s.events (input.step ctx scope s.state)
    else { s with pipe := .share shared.clear input s.pipe }
  | .scan _ pattern slot (.reading row items) input =>
    scanItem ctx pattern slot row items input state
  | .scan _ pattern slot .idle input =>
    match state.checkCancelled with
    | .error e => .quiet (.fail e) (.scan .active pattern slot .idle input) state
    | .ok () => scanStep ctx pattern slot (input.step ctx scope state)
  | .scan _ pattern slot .asking input => scanStep ctx pattern slot (input.step ctx scope state)
  | .filter _ condition input => filterStep ctx condition (input.step ctx scope state)
  | .join _ kind condition (.gathering rows) left right =>
    joinRightStep ctx kind condition rows left (right.step ctx scope state)
  | .join _ kind condition (.idle rows) left right =>
    joinLeftStep kind condition rows right (left.step ctx scope state)
  | .join _ kind condition (.trying rows row untried matched) left right =>
    joinTry kind condition rows row untried matched left right state
  | .optional _ right condition graph input =>
    optionalStep ctx right condition graph (input.step ctx scope state)
  | .probing right condition graph row matched probe input =>
    probeStep right condition graph row matched input (probe.step ctx scope state)
  | .graphs _ var sub known (.trying row candidates) input =>
    graphsTry ctx var sub known row candidates input state
  | .graphs _ var sub known .idle input =>
    match state.checkCancelled with
    | .error e => .quiet (.fail e) (.graphs .active var sub known .idle input) state
    | .ok () => graphsStep ctx var sub known (input.step ctx scope state)
  | .graphs _ var sub known .asking input =>
    graphsStep ctx var sub known (input.step ctx scope state)
  | .within var sub known row candidates inner input =>
    withinStep var sub known row candidates input (inner.step ctx scope state)
  | .names _ name known (row :: pending) input =>
    .quiet (.yield row) (.names .active name known pending input) state
  | .names _ name known [] input => namesStep ctx name known (input.step ctx scope state)
  | .table _ [] _ input => Step.finish (.table .exhausted [] .idle) input state
  | .table _ rows (.trying row untried) input => tableTry rows row untried input state
  | .table _ rows .idle input => tableStep rows (input.step ctx scope state)
  | .order _ keys (.gathering keyed) input => orderStep ctx keys keyed (input.step ctx scope state)
  | .order _ keys (.sorted []) input =>
    .quiet .done (.order .exhausted keys (.sorted []) input) state
  | .order _ keys (.sorted (row :: rest)) input =>
    .quiet (.yield row) (.order .active keys (.sorted rest) input) state
  | .project _ vars input => projectStep vars (input.step ctx scope state)
  | .distinct _ seen limit input => distinctStep seen limit (input.step ctx scope state)
  | .slice _ skip (some 0) input => Step.finish (.slice .exhausted skip (some 0)) input state
  | .slice _ skip remaining input => sliceStep skip remaining (input.step ctx scope state)
  | .concat _ false first rest => concatFirstStep rest (first.step ctx scope state)
  | .concat _ true first rest => concatRestStep first (rest.step ctx scope state)
  | .concatEnd _ => .quiet .done (.concatEnd .exhausted) state

/-! ## Answers -/

/-- The answer to a question that takes some steps. -/
inductive Outcome (α : Type) where
  | value (a : α)
  | failed (e : ExecError)
  /-- The fuel ran out, or the pipeline waits for a scope that it is not in. -/
  | stalled

/-- The answer to a question, what it was asked of in its state afterwards, and the events on the
way. -/
structure Answer (σ α : Type) where
  outcome : Outcome α
  subject : σ
  log : Array Event
  state : RunState

namespace Pipe

/-- The next row of a pipeline, none at its end; `log` are the events so far. -/
def next (ctx : Context) : Nat → Pipe → RunState → Array Event → Answer Pipe (Option Binding)
  | 0, p, state, log => ⟨.stalled, p, log, state⟩
  | fuel + 1, p, state, log =>
    let s := p.step ctx none state
    let log := log ++ s.events
    match s.signal with
    | .skip => next ctx fuel s.pipe s.state log
    | .yield row => ⟨.value (some row), s.pipe, log, s.state⟩
    | .done => ⟨.value none, s.pipe, log, s.state⟩
    | .fail e => ⟨.failed e, s.pipe, log, s.state⟩
    | .await => ⟨.stalled, s.pipe, log, s.state⟩

/-- All further rows of a pipeline, which is closed at its end or at a failure. -/
def drain (ctx : Context) (fuel : Nat) (p : Pipe) (state : RunState) (log : Array Event) :
    Answer Pipe (List Binding) :=
  go fuel p state log #[]
where
  /-- `drain` after some rows. -/
  go : Nat → Pipe → RunState → Array Event → Array Binding → Answer Pipe (List Binding)
    | 0, p, state, log, _ => ⟨.stalled, p, log, state⟩
    | fuel + 1, p, state, log, rows =>
      let s := p.step ctx none state
      let log := log ++ s.events
      match s.signal with
      | .skip => go fuel s.pipe s.state log rows
      | .yield row => go fuel s.pipe s.state log (rows.push row)
      | .done => ⟨.value rows.toList, s.pipe.close.1, log ++ s.pipe.close.2, s.state⟩
      | .fail e => ⟨.failed e, s.pipe.close.1, log ++ s.pipe.close.2, s.state⟩
      | .await => ⟨.stalled, s.pipe, log, s.state⟩

end Pipe

end TripleQuery
