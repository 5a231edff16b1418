import TripleQuery.Exec.State
import TripleQuery.Expr.Basic

/-!
# Events of a run

What a run does besides producing rows, in order: questions to the dataset, evaluations of
expressions, calls that reach a tracked pipeline, and readers that let go of a shared input.
-/

namespace TripleQuery

/-- Something that happens during a run. -/
inductive Event where
  | scan (r : ScanRequest)
  | listing
  | evaluate (e : Expr) (b : Binding)
  | test (e : Expr) (b : Binding)
  /-- A tracked pipeline is asked for a row. -/
  | pulled (id : String)
  /-- A tracked pipeline is closed. -/
  | closed (id : String)
  /-- A tracking realization is built over a seed. -/
  | realized (name : String) (graph : ActiveGraph) (seed : String)
  /-- A reader of a shared input is closed for the first time. The scope of the input takes the
  event in; it does not pass beyond it. -/
  | released

namespace Event

/-- Whether the event is a question to the dataset or an evaluation. -/
def isInquiry : Event → Bool
  | scan _ | listing | evaluate .. | test .. => true
  | _ => false

/-- Whether the event is a reader's release of its shared input. -/
def isRelease : Event → Bool
  | released => true
  | _ => false

/-- The written form of a position in a question. -/
def renderPosition (position : Option Term) : String := position.elim "*" Term.render

/-- The written form of the graphs that a scan looks at. -/
def renderTarget : GraphTarget → String
  | .default => "default"
  | .named name => "named " ++ name.render
  | .anyNamed => "any"

/-- The written form of an event; releases have none. -/
def render? : Event → Option String
  | scan r => some (" ".intercalate ["scan", renderPosition r.subject, renderPosition r.predicate,
      renderPosition r.object, renderTarget r.target])
  | listing => some "names"
  | evaluate e b => some ("eval " ++ e.render ++ " " ++ b.render)
  | test e b => some ("test " ++ e.render ++ " " ++ b.render)
  | pulled id => some (id ++ ".next")
  | closed id => some (id ++ ".close")
  | realized name graph seed => some (" ".intercalate ["realize", name, graph.render, seed])
  | released => none

end Event

end TripleQuery
