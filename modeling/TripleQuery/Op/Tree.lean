import TripleQuery.Op.Basic

/-!
# Operator trees as text

One line per operator, drawn as a tree: each operator under the one it feeds.
-/

namespace TripleQuery

/-- The written form of a sort key. -/
def SortKey.render (k : SortKey) : String :=
  match k.direction with
  | .ascending => k.expr.render
  | .descending => k.expr.render ++ " DESC"

namespace Op

/-- The short name of an operator. -/
def kind : Op → String
  | bgp _ => "BGP"
  | quadPattern .. => "QuadPattern"
  | datasetNames _ => "DatasetNames"
  | table _ => "Table"
  | extension _ => "Extension"
  | join .. => "Join"
  | leftJoin .. => "LeftJoin"
  | union .. => "Union"
  | filter .. => "Filter"
  | graph .. => "Graph"
  | order .. => "Order"
  | project .. => "Project"
  | distinct _ => "Distinct"
  | slice .. => "Slice"

/-- The line of an operator, without those below it. -/
def label : Op → String
  | bgp patterns => "BGP: " ++ " . ".intercalate (patterns.map TriplePattern.render)
  | quadPattern g patterns =>
    "QuadPattern " ++ g.render ++ ": " ++ " . ".intercalate (patterns.map TriplePattern.render)
  | datasetNames name => "DatasetNames: " ++ name.render
  | table t => "Table: " ++ toString t.rows.length ++ " rows"
  | extension e => "Extension: " ++ e.name
  | join .. => "Join"
  | leftJoin _ _ none => "LeftJoin"
  | leftJoin _ _ (some e) => "LeftJoin [filter: " ++ e.render ++ "]"
  | union .. => "Union"
  | filter e _ => "Filter: " ++ e.render
  | graph name _ => "Graph: " ++ name.render
  | order keys _ => "Order: " ++ ", ".intercalate (keys.map SortKey.render)
  | project vars _ => "Project:" ++ String.join (vars.map fun v => " " ++ v.render)
  | distinct _ => "Distinct"
  | slice offset none _ => "Slice: offset " ++ toString offset
  | slice offset (some limit) _ =>
    "Slice: offset " ++ toString offset ++ ", limit " ++ toString limit

/-- The connector in front of an operator's line. -/
def connector (isLast : Bool) : String := if isLast then "└── " else "├── "

/-- What an operator adds to the indentation of those below it. -/
def rail (isLast : Bool) : String := if isLast then "    " else "│   "

/-- The operator's line behind an indentation, and the lines of those below it. -/
def drawFrom (indent : String) (isLast : Bool) (op : Op) : String :=
  let line := indent ++ connector isLast ++ op.label ++ "\n"
  let below := indent ++ rail isLast
  match op with
  | join l r | leftJoin l r _ | union l r =>
    line ++ l.drawFrom below false ++ r.drawFrom below true
  | filter _ s | graph _ s | order _ s | project _ s | distinct s | slice _ _ s =>
    line ++ s.drawFrom below true
  | bgp _ | quadPattern .. | datasetNames _ | table _ | extension _ => line

/-- The whole tree as text. -/
def draw (op : Op) : String := op.drawFrom "" true

end Op

end TripleQuery
