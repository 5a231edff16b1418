import TripleQuery.Exec.Event
import TripleQuery.Op.Basic

/-!
# Pipelines

A compiled query is a pipeline: a tree of stages, each of which takes rows from its inputs and
passes rows on when it is asked for one. A stage goes through four phases. It is created, active
once it has been asked, exhausted once it has had no row to give, and closed once it is told to
stop; closing reaches every input below it, always.

Two branches of a union read the same input. `share` is the scope of such an input: inside its
body, `replay` stages read the rows that the scope keeps, each at its own pace.
-/

namespace TripleQuery

/-! ## Phases -/

/-- The phase of a stage. -/
inductive Phase where
  | created
  | active
  | exhausted
  | closed
deriving DecidableEq

namespace Phase

def isActive (p : Phase) : Bool := p == active

def isExhausted (p : Phase) : Bool := p == exhausted

def isClosed (p : Phase) : Bool := p == closed

/-- Whether no more rows will come. -/
def isDone : Phase → Bool
  | exhausted | closed => true
  | created | active => false

/-- The phase after being asked for a row. -/
def activate : Phase → Phase
  | created => active
  | p => p

/-- The phase after running out of rows. -/
def exhaust : Phase → Phase
  | closed => closed
  | _ => exhausted

/-- The name of a phase. -/
def name : Phase → String
  | created => "Created"
  | active => "Active"
  | exhausted => "Exhausted"
  | closed => "Closed"

end Phase

/-! ## What stages remember -/

/-- The rows of a shared input. -/
structure SharedRows where
  /-- The rows read from the input so far. -/
  rows : Array Binding
  /-- Whether the input has run out. -/
  inputDone : Bool
  /-- A failure of the input that the waiting reader is yet to report. -/
  fault : Option ExecError
  /-- The number of readers that are not closed. -/
  openReaders : Nat
  /-- The most rows to keep; zero for no limit. -/
  limit : Nat

/-- An item of a scripted pipeline: a row or a failure. -/
inductive ScriptItem where
  | row (b : Binding)
  | fail (e : ExecError)

/-- Where a pattern scan looks for quads. -/
inductive GraphSlot where
  | default
  | named (name : Term)
  /-- Any named graph, whose name the variable is bound to. -/
  | var (v : Variable)
deriving DecidableEq

namespace GraphSlot

/-- The slot of a plain pattern under an active graph. -/
def ofActive : ActiveGraph → GraphSlot
  | .default => default
  | .named name => named name

/-- The slot of a graph that a pattern names. -/
def ofPattern : TermPattern → GraphSlot
  | .term name => named name
  | .var v => var v

/-- The variable that the slot binds, if any. -/
def vars : GraphSlot → List Variable
  | var v => [v]
  | _ => []

/-- The graphs to look at for a row. -/
def target (slot : GraphSlot) (b : Binding) : GraphTarget :=
  match slot with
  | default => .default
  | named name => .named name
  | var v => (b.get? v).elim .anyNamed .named

end GraphSlot

/-- What a scan is at. -/
inductive ScanState where
  /-- Between rows. -/
  | idle
  /-- Asking for the next row, after having seen that the query is not cancelled. -/
  | asking
  /-- Reading the items found for a row. -/
  | reading (row : Binding) (items : List CursorItem)

/-- Which rows a join emits. -/
inductive JoinKind where
  /-- Compatible pairs. -/
  | inner
  /-- Compatible pairs, and each left row that has none. -/
  | left
deriving DecidableEq

/-- What a join is at. -/
inductive JoinState where
  /-- Reading the right side. -/
  | gathering (rows : Array Binding)
  /-- Between left rows; the right side has the given rows. -/
  | idle (rows : List Binding)
  /-- Trying a left row against the rows of the right side that are left to try. -/
  | trying (rows : List Binding) (row : Binding) (untried : List Binding) (matched : Bool)

/-- What a stage that goes through graphs is at. -/
inductive GraphsState where
  /-- Between rows. -/
  | idle
  /-- Asking for the next row, after having seen that the query is not cancelled. -/
  | asking
  /-- Going through the graphs to try for a row. -/
  | trying (row : Binding) (candidates : List Term)

/-- What a table stage is at: between rows, or trying a row against table rows. -/
inductive TableState where
  | idle
  | trying (row : Binding) (untried : List Binding)

/-- What a sort is at: reading its input, or giving out the sorted rows. -/
inductive OrderState where
  | gathering (keyed : Array (List (Option Term) × Binding))
  | sorted (rows : List Binding)

/-! ## The stages -/

/-- A pipeline. -/
inductive Pipe where
  /-- A fixed list of rows. -/
  | bindings (phase : Phase) (rows : List Binding)
  /-- A fixed list of rows and failures. -/
  | script (phase : Phase) (items : List ScriptItem)
  /-- A pipeline whose calls are recorded; `calling` while one is under way. -/
  | tracked (id : String) (calling : Bool) (input : Pipe)
  /-- A reader of the shared input in whose scope it stands. -/
  | replay (phase : Phase) (position : Nat)
  /-- The scope of a shared input. -/
  | share (shared : SharedRows) (input body : Pipe)
  /-- Each row extended by each quad that matches a pattern. -/
  | scan (phase : Phase) (pattern : TriplePattern) (slot : GraphSlot) (state : ScanState)
    (input : Pipe)
  /-- The rows that satisfy a condition. -/
  | filter (phase : Phase) (condition : Expr) (input : Pipe)
  /-- Left rows merged with the rows of a right side that is read once. -/
  | join (phase : Phase) (kind : JoinKind) (condition : Option Expr) (state : JoinState)
    (left right : Pipe)
  /-- An optional join by probing, between left rows. -/
  | optional (phase : Phase) (right : Op) (condition : Option Expr) (graph : ActiveGraph)
    (input : Pipe)
  /-- An optional join while it probes its right side for a left row. -/
  | probing (right : Op) (condition : Option Expr) (graph : ActiveGraph) (row : Binding)
    (matched : Bool) (probe input : Pipe)
  /-- A subtree over every named graph, between graphs. -/
  | graphs (phase : Phase) (var : Variable) (sub : Op) (names : Option (List Term))
    (state : GraphsState) (input : Pipe)
  /-- A subtree over every named graph, while it runs in one of them. -/
  | within (var : Variable) (sub : Op) (names : Option (List Term)) (row : Binding)
    (candidates : List Term) (inner input : Pipe)
  /-- The names of the named graphs. -/
  | names (phase : Phase) (name : TermPattern) (names : Option (List Term))
    (pending : List Binding) (input : Pipe)
  /-- Each row merged with the rows of a table. -/
  | table (phase : Phase) (rows : List Binding) (state : TableState) (input : Pipe)
  /-- All rows, sorted. -/
  | order (phase : Phase) (keys : List SortKey) (state : OrderState) (input : Pipe)
  /-- Rows restricted to some variables. -/
  | project (phase : Phase) (vars : List Variable) (input : Pipe)
  /-- The first of each group of equal rows. -/
  | distinct (phase : Phase) (seen : List Binding) (limit : Nat) (input : Pipe)
  /-- Rows after `skip` more have been dropped, at most `remaining` of them. -/
  | slice (phase : Phase) (skip : Nat) (remaining : Option Nat) (input : Pipe)
  /-- The rows of a first pipeline, then those of the rest, itself a concatenation; `dry` once the
  first one has run out. -/
  | concat (phase : Phase) (dry : Bool) (first rest : Pipe)
  /-- The concatenation of no pipelines. -/
  | concatEnd (phase : Phase)

namespace Pipe

/-! ## Building -/

/-- The pipeline of one row. -/
def single (b : Binding) : Pipe := .bindings .created [b]

/-- The pipeline of the one row that binds nothing. -/
def identity : Pipe := single Binding.empty

/-- The rows of several pipelines, one after the other. -/
def concatAll : List Pipe → Pipe
  | [] => .concatEnd .created
  | p :: rest => .concat .created false p (concatAll rest)

/-- A join that has read nothing yet. -/
def joining (kind : JoinKind) (condition : Option Expr) (left right : Pipe) : Pipe :=
  .join .created kind condition (.gathering #[]) left right

/-! ## Looking -/

/-- The phase of a pipeline. -/
def phase : Pipe → Phase
  | bindings p _ | script p _ | replay p _ | scan p .. | filter p .. | join p .. | optional p ..
  | graphs p .. | names p .. | table p .. | order p .. | project p .. | distinct p ..
  | slice p .. | concat p .. | concatEnd p => p
  | tracked _ _ input => input.phase
  | share _ _ body => body.phase
  | probing .. | within .. => .active

/-- Whether the stage has ended by itself, so that being asked changes nothing. A tracked stage
and a scope pass every question on. -/
def isSpent : Pipe → Bool
  | tracked .. | share .. => false
  | p => p.phase.isDone

/-- The name of the kind of pipeline. -/
def name : Pipe → String
  | bindings .. => "Bindings"
  | script .. => "Script"
  | tracked .. => "Tracked"
  | replay .. => "Replay"
  | share _ _ body => body.name
  | scan .. => "PatternScan"
  | filter .. => "Filter"
  | join .. => "NestedLoopJoin"
  | optional .. | probing .. => "OptionalIndex"
  | graphs .. | within .. => "Graph"
  | names .. => "DatasetNames"
  | table .. => "Table"
  | order .. => "Order"
  | project .. => "Project"
  | distinct .. => "Distinct"
  | slice .. => "Slice"
  | concat .. | concatEnd .. => "Concat"

end Pipe

end TripleQuery
