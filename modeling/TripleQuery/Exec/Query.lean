import TripleQuery.Exec.Run

/-!
# Queries

A query is an operator tree compiled at the root. It owns its pipeline and closes it when the
rows run out, at the first error, and when it is told to. Once the run is cancelled it gives no
more rows.
-/

namespace TripleQuery

/-- A compiled query. -/
structure Query where
  root : Pipe
  closed : Bool

namespace Query

/-- The query of an operator tree, or the error of compiling it, and the events of that. -/
def ofOp (op : Op) (ctx : Context) : Except ExecError Query × List Event :=
  let compiled := compile op ctx .identity
  (compiled.result.map (⟨·, false⟩), compiled.events)

/-- The phase of the query's pipeline. -/
def phase (q : Query) : Phase := q.root.phase

/-- The closed query and the events of closing it, which happen once. -/
def close (q : Query) : Query × List Event :=
  if q.closed then (q, []) else (⟨q.root.close.1, true⟩, q.root.close.2)

/-- Answers about a query that is closed with the answer. -/
def answerClosing {α : Type} (q : Query) (outcome : Outcome α) (log : Array Event)
    (state : RunState) : Answer Query α :=
  ⟨outcome, q.close.1, log ++ q.close.2, state⟩

/-- The next row, none at the end. At the end and at an error the query is closed. -/
def next (ctx : Context) (fuel : Nat) (q : Query) (state : RunState) (log : Array Event) :
    Answer Query (Option Binding) :=
  if q.closed then ⟨.value none, q, log, state⟩
  else if state.cancelled then q.answerClosing (.failed .cancelled) log state
  else
    let a := q.root.next ctx fuel state log
    let q : Query := ⟨a.subject, false⟩
    match a.outcome with
    | .value (some row) => ⟨.value (some row), q, a.log, a.state.recordProduced ctx.config 1⟩
    | .value none => q.answerClosing (.value none) a.log a.state
    | .failed e => q.answerClosing (.failed e) a.log a.state
    | .stalled => ⟨.stalled, q, a.log, a.state⟩

/-- The next row, after which the query is closed. -/
def first (ctx : Context) (fuel : Nat) (q : Query) (state : RunState) (log : Array Event) :
    Answer Query (Option Binding) :=
  let a := q.next ctx fuel state log
  match a.outcome with
  | .value row => a.subject.answerClosing (.value row) a.log a.state
  | _ => a

/-- All further rows. -/
def collect (ctx : Context) (fuel : Nat) (q : Query) (state : RunState) (log : Array Event) :
    Answer Query (List Binding) :=
  go fuel q state log #[]
where
  /-- `collect` after some rows. -/
  go : Nat → Query → RunState → Array Event → Array Binding → Answer Query (List Binding)
    | 0, q, state, log, _ => ⟨.stalled, q, log, state⟩
    | rounds + 1, q, state, log, rows =>
      let a := q.next ctx fuel state log
      match a.outcome with
      | .value (some row) => go rounds a.subject a.state a.log (rows.push row)
      | .value none => ⟨.value rows.toList, a.subject, a.log, a.state⟩
      | .failed e => ⟨.failed e, a.subject, a.log, a.state⟩
      | .stalled => ⟨.stalled, a.subject, a.log, a.state⟩

/-- The number of further rows. -/
def count (ctx : Context) (fuel : Nat) (q : Query) (state : RunState) (log : Array Event) :
    Answer Query Nat :=
  let a := q.collect ctx fuel state log
  let outcome : Outcome Nat := match a.outcome with
    | .value rows => .value rows.length
    | .failed e => .failed e
    | .stalled => .stalled
  ⟨outcome, a.subject, a.log, a.state⟩

end Query

/-- The rows of an operator tree, run from the start. -/
def execute (ctx : Context) (fuel : Nat) (op : Op) (state : RunState) : Outcome (List Binding) :=
  match (Query.ofOp op ctx).1 with
  | .ok q => (q.collect ctx fuel state #[]).outcome
  | .error e => .failed e

end TripleQuery
