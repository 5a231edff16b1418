import TripleQuery.Exec.Pipe

/-!
# Closing pipelines

Closing a pipeline closes everything it owns and reports what that sets off, in order. It is
total and needs nothing from the run. The input of a scope is owned by its readers together: it
is closed at the moment the last of them is.
-/

namespace TripleQuery

/-- What a shared input makes of the events of its readers: each release counts one reader less,
and in the place of the last one stand the events of closing the input. -/
def SharedRows.settle (shared : SharedRows) (input : Pipe) (closeInput : Unit → Pipe × List Event) :
    List Event → SharedRows × Pipe × List Event
  | [] => (shared, input, [])
  | e :: rest =>
    if e.isRelease then
      if shared.openReaders ≤ 1 then
        let (closed, events) := closeInput ()
        let (shared, input, more) :=
          { shared with openReaders := 0, rows := #[] }.settle closed closeInput rest
        (shared, input, events ++ more)
      else
        { shared with openReaders := shared.openReaders - 1 }.settle input closeInput rest
    else
      let (shared, input, more) := shared.settle input closeInput rest
      (shared, input, e :: more)

namespace Pipe

/-- The closed pipeline and the events of closing it. -/
def close : Pipe → Pipe × List Event
  | bindings _ _ => (bindings .closed [], [])
  | script _ items => (script .closed items, [])
  | tracked id _ input =>
    let (input, events) := input.close
    (tracked id false input, .closed id :: events)
  | replay phase position =>
    (replay .closed position, if phase.isClosed then [] else [.released])
  | share shared input body =>
    let (body, events) := body.close
    let (shared, input, events) := shared.settle input (fun _ => input.close) events
    (share shared input body, events)
  | scan _ pattern slot _ input =>
    let (input, events) := input.close
    (scan .closed pattern slot .idle input, events)
  | filter _ condition input =>
    let (input, events) := input.close
    (filter .closed condition input, events)
  | join _ kind condition _ left right =>
    let (left, leftEvents) := left.close
    let (right, rightEvents) := right.close
    (join .closed kind condition (.gathering #[]) left right, leftEvents ++ rightEvents)
  | optional _ right condition graph input =>
    let (input, events) := input.close
    (optional .closed right condition graph input, events)
  | probing right condition graph _ _ probe input =>
    let (input, inputEvents) := input.close
    (optional .closed right condition graph input, inputEvents ++ probe.close.2)
  | graphs _ var sub known _ input =>
    let (input, events) := input.close
    (graphs .closed var sub known .idle input, events)
  | within var sub known _ _ inner input =>
    let (input, inputEvents) := input.close
    (graphs .closed var sub known .idle input, inputEvents ++ inner.close.2)
  | names _ name known _ input =>
    let (input, events) := input.close
    (names .closed name known [] input, events)
  | table _ rows _ input =>
    let (input, events) := input.close
    (table .closed rows .idle input, events)
  | order _ keys _ input =>
    let (input, events) := input.close
    (order .closed keys (.sorted []) input, events)
  | project _ vars input =>
    let (input, events) := input.close
    (project .closed vars input, events)
  | distinct _ _ limit input =>
    let (input, events) := input.close
    (distinct .closed [] limit input, events)
  | slice _ skip remaining input =>
    let (input, events) := input.close
    (slice .closed skip remaining input, events)
  | concat _ dry first rest =>
    let (first, firstEvents) := first.close
    let (rest, restEvents) := rest.close
    (concat .closed dry first rest, firstEvents ++ restEvents)
  | concatEnd _ => (concatEnd .closed, [])

end Pipe

end TripleQuery
