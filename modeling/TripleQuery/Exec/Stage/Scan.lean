import TripleQuery.Exec.Step

/-!
# Pattern scans

For each input row the pattern is filled in with what the row binds, the dataset is asked for the
quads that match, and each quad extends the row. The quads are checked against the pattern again,
so a dataset that lists too much does no harm.
-/

namespace TripleQuery

/-- The question that a pattern is for a row. -/
def ScanRequest.ofPattern (pattern : TriplePattern) (slot : GraphSlot) (row : Binding) :
    ScanRequest where
  subject := pattern.subject.resolve row
  predicate := pattern.predicate.resolve row
  object := pattern.object.resolve row
  target := slot.target row

/-- The row extended by the graph of a quad, where the slot binds it. -/
def GraphSlot.bind (slot : GraphSlot) (graph : Option Term) (row : Binding) : Option Binding :=
  match slot, graph with
  | .var v, some name => (row.extend v name).toOption
  | .var _, none => none
  | _, _ => some row

/-- The row extended by a quad, unless they conflict or the quad does not match. -/
def bindQuad (pattern : TriplePattern) (slot : GraphSlot) (row : Binding) (q : Quad) :
    Option Binding :=
  (row.matchAll pattern.positions q.terms).bind (slot.bind q.graph)

/-- A scan after the next item of those it found for a row. -/
def scanItem (ctx : Context) (pattern : TriplePattern) (slot : GraphSlot) (row : Binding)
    (items : List CursorItem) (input : Pipe) (state : RunState) : Step :=
  match items with
  | [] => .quiet .skip (.scan .active pattern slot .idle input) state
  | .quad q :: rest =>
    .quiet ((bindQuad pattern slot row q).elim .skip .yield)
      (.scan .active pattern slot (.reading row rest) input) (state.recordScanned ctx.config 1)
  | .fault e :: rest =>
    .quiet (.fail (.dataset e)) (.scan .active pattern slot (.reading row rest) input) state
  | .cancel :: rest =>
    .quiet .skip (.scan .active pattern slot (.reading row rest) input) state.cancel

/-- A scan after an input row: the dataset is asked. -/
def scanRow (ctx : Context) (pattern : TriplePattern) (slot : GraphSlot) (row : Binding)
    (input : Pipe) (state : RunState) : Step :=
  let r := ScanRequest.ofPattern pattern slot row
  match ctx.openScan r state with
  | (.ok items, state) =>
    ⟨.skip, .scan .active pattern slot (.reading row items) input, [.scan r], state⟩
  | (.error e, state) => ⟨.fail e, .scan .active pattern slot .idle input, [.scan r], state⟩

/-- A scan after a step of its input. -/
def scanStep (ctx : Context) (pattern : TriplePattern) (slot : GraphSlot) (s : Step) : Step :=
  s.feedOr (.scan .active pattern slot .asking) (.scan .active pattern slot .idle)
    (scanRow ctx pattern slot) (Step.finish (.scan .exhausted pattern slot .idle))

end TripleQuery
