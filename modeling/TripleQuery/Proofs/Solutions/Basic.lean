import TripleQuery.Dataset.Memory
import TripleQuery.Exec.Stage.Rows
import TripleQuery.Exec.Stage.Scan
import TripleQuery.Proofs.Binding.Merge

/-!
# Solutions of operators

What an operator tree means, without pipelines: a function from the rows that flow into an
operator to the list of rows that flow out of it. Nothing is lazy here, nothing is buffered and
nothing fails. An operator that can be fed row by row works on its input; any other is solved for
the one row that binds nothing, and its rows are joined with the input.
-/

namespace TripleQuery

/-! ## Joining rows -/

/-- A row merged with each row of a list that is compatible with it. -/
def mergeInto (a : Binding) (rows : List Binding) : List Binding := rows.filterMap a.union?

/-- The compatible pairs of two lists of rows, merged, in the order of the first list. -/
def joinRows (as bs : List Binding) : List Binding := as.flatMap fun a => mergeInto a bs

/-! ## Patterns -/

/-- Whether quads of a graph are matched in a slot. -/
def GraphSlot.covers (slot : GraphSlot) (graph : Option Term) : Bool :=
  match slot with
  | .default => graph.isNone
  | .named name => graph == some name
  | .var _ => graph.isSome

namespace QuadStore

/-- A row extended by each quad of the store that matches a pattern, in the order of the store. -/
def matchQuads (store : QuadStore) (slot : GraphSlot) (pattern : TriplePattern) (row : Binding) :
    List Binding :=
  store.quads.filterMap fun q =>
    if slot.covers q.graph then bindQuad pattern slot row q else none

/-- Rows extended by the matches of some patterns, pattern by pattern. -/
def solvePatterns (store : QuadStore) (slot : GraphSlot) (patterns : List TriplePattern)
    (rows : List Binding) : List Binding :=
  patterns.foldl (fun rows pattern => rows.flatMap (store.matchQuads slot pattern)) rows

/-- The rows that list the named graphs: one per name for a variable, and for a constant the row
that binds nothing, if the graph exists. -/
def nameTable (store : QuadStore) : TermPattern → List Binding
  | .var v => store.graphNames.map (Binding.single v)
  | .term name => if name ∈ store.graphNames then [Binding.empty] else []

end QuadStore

/-! ## Optional rows, sorts -/

/-- A row merged with the rows of an optional side, as far as a condition admits the result; the
row itself if nothing is left. -/
def optionalRows (condition : Option Expr) (right : List Binding) (row : Binding) :
    List Binding :=
  let merged := (mergeInto row right).filter (admitsAll condition)
  if merged.isEmpty then [row] else merged

/-- Whether a row does not come after another one under some sort keys. -/
def sortsBefore (keys : List SortKey) (a b : Binding) : Bool :=
  (compareKeys keys (keyValues keys a) (keyValues keys b)).isLE

/-! ## The solutions -/

/-- No extension occurs in the tree. -/
def Op.Plain : Op → Prop
  | .extension _ => False
  | .bgp _ | .quadPattern .. | .datasetNames _ | .table _ => True
  | .join l r | .leftJoin l r _ | .union l r => l.Plain ∧ r.Plain
  | .filter _ s | .graph _ s | .order _ s | .project _ s | .distinct s | .slice _ _ s => s.Plain

/-- The rows that an operator makes of the rows that flow into it. Extensions are opaque and have
no solutions here. -/
def Op.solve (store : QuadStore) : Op → ActiveGraph → List Binding → List Binding
  | .bgp patterns, g, rows => store.solvePatterns (.ofActive g) patterns rows
  | .quadPattern name patterns, _, rows => store.solvePatterns (.ofPattern name) patterns rows
  | .datasetNames name, _, rows => joinRows rows (store.nameTable name)
  | .table t, _, rows => joinRows rows t.rows
  | .extension _, _, _ => []
  | .join l r, g, rows => r.solve store g (l.solve store g rows)
  | .leftJoin l r condition, g, rows =>
    joinRows rows ((l.solve store g [.empty]).flatMap
      (optionalRows condition (r.solve store g [.empty])))
  | .union l r, g, rows => l.solve store g rows ++ r.solve store g rows
  | .filter e sub, g, rows =>
    if coveredBy e.mentions sub.mentions then (sub.solve store g rows).filter e.admits
    else joinRows rows ((sub.solve store g [.empty]).filter e.admits)
  | .graph (.term name) sub, _, rows => sub.solve store (.named name) rows
  | .graph (.var v) sub, _, rows => rows.flatMap fun row => store.graphNames.flatMap fun name =>
    match row.extend v name with
    | .ok row => sub.solve store (.named name) [row]
    | .error _ => []
  | .order keys sub, g, rows =>
    joinRows rows ((sub.solve store g [.empty]).mergeSort (sortsBefore keys))
  | .project vars sub, g, rows =>
    joinRows rows ((sub.solve store g [.empty]).map (·.project vars))
  | .distinct sub, g, rows => joinRows rows (sub.solve store g [.empty]).eraseDups
  | .slice offset limit sub, g, rows =>
    let kept := (sub.solve store g [.empty]).drop offset
    joinRows rows (limit.elim kept kept.take)

end TripleQuery
