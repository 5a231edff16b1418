import TripleQuery.Exec.Step

/-!
# Shared inputs

A reader of a shared input gives out the rows kept by the scope, one by one. If it is ahead of
them it waits: the scope reads one step of the input, keeps the row, notes the end, or notes a
failure, which the reader then reports. A row that does not fit the limit is kept all the same.
-/

namespace TripleQuery

/-- A reader's step, given the rows of its scope; without a scope it waits for ever. -/
def replayStep (shared : Option SharedRows) (phase : Phase) (position : Nat)
    (state : RunState) : Step :=
  match shared with
  | none => .quiet .await (.replay phase.activate position) state
  | some shared =>
    match shared.fault with
    | some e => .quiet (.fail e) (.replay phase.activate position) state
    | none =>
      match shared.rows[position]? with
      | some row => .quiet (.yield row) (.replay phase.activate (position + 1)) state
      | none =>
        if shared.inputDone then .quiet .done (.replay phase.exhaust position) state
        else .quiet .await (.replay phase.activate position) state

namespace SharedRows

/-- The rows with no failure to report. -/
def clear (shared : SharedRows) : SharedRows := { shared with fault := none }

/-- The rows after one more has been read. -/
def keep (shared : SharedRows) (row : Binding) : SharedRows :=
  let rows := shared.rows.push row
  { shared with
    rows := rows
    fault := if exceeds rows.size shared.limit then some (.tooLarge rows.size shared.limit)
      else none }

/-- The rows after a step of the input. -/
def absorb (shared : SharedRows) : Signal → SharedRows
  | .yield row => shared.keep row
  | .done => { shared with inputDone := true }
  | .fail e => { shared with fault := some e }
  | .skip | .await => shared

end SharedRows

/-- The scope after a step of its body that released readers. -/
def shareSettle (shared : SharedRows) (input : Pipe) (body : Step) : Step :=
  let (shared, input, events) := shared.clear.settle input (fun _ => input.close) body.events
  ⟨if body.signal = .await then .skip else body.signal, .share shared input body.pipe, events,
    body.state⟩

/-- The scope after a step of its input, which its body waits for. It waits in turn only if the
input reads from a scope further out. -/
def shareRead (shared : SharedRows) (body : Pipe) (events : List Event) (s : Step) : Step :=
  ⟨if s.signal = .await then .await else .skip, .share (shared.absorb s.signal) s.pipe body,
    events ++ s.events, s.state⟩

end TripleQuery
