import TripleQuery.Json.Basic
import TripleQuery.Pattern

/-!
# Data as JSON

The JSON form of terms, variables, bindings, patterns and quads. Every reader takes back what the
writer produces, with the members of its objects in any order; members it does not know are
skipped, and a member it knows must not be repeated. Names of variables are taken as they are.

A record is read from an object only. That its members may also come without their names, as an
array in the order in which they are declared, is not modelled: no writer produces such an array,
and the readers here refuse it.
-/

namespace TripleQuery

open Json (required optional)

/-! ## Literals and terms -/

/-- A literal as an object; a missing language tag is left out. -/
def Literal.toJson (l : Literal) : Json :=
  .object ([("lexical", .string l.lexical), ("datatype", .string l.datatype)] ++
    match l.language with
    | some tag => [("language", .string tag)]
    | none => [])

/-- The value of an optional member, where null counts as missing. -/
def Json.optionOf? {α : Type} (read : Json → Option α) : Option Json → Option (Option α)
  | none => some none
  | some .null => some none
  | some v => (read v).map some

/-- A literal from its object. -/
def Literal.ofJson? (j : Json) : Option Literal := do
  let members ← j.asObject?
  let lexical ← (← required "lexical" members).asString?
  let datatype ← (← required "datatype" members).asString?
  let language ← Json.optionOf? Json.asString? (← optional "language" members)
  return ⟨lexical, datatype, language⟩

/-- A term as an object with its kind and its content. -/
def Term.toJson : Term → Json
  | .blank label => .object [("type", .string "blank_node"), ("value", .string label)]
  | .iri text => .object [("type", .string "iri"), ("value", .string text)]
  | .literal l => .object [("type", .string "literal"), ("value", l.toJson)]

/-- The content of a term of a given kind. -/
def Term.ofContent? (kind : String) (content : Json) : Option Term :=
  if kind = "blank_node" then content.asString?.map .blank
  else if kind = "iri" then content.asString?.map .iri
  else if kind = "literal" then (Literal.ofJson? content).map .literal
  else none

/-- Whether the content comes before the kind, so that it has to be read whole before it is known
what it is. -/
def contentFirst (members : List (String × Json)) : Bool :=
  (members.find? fun e => e.1 == "type" || e.1 == "value").any (·.1 == "value")

/-- A term from its object. -/
def Term.ofJson? (j : Json) : Option Term := do
  let members ← j.asObject?
  let kind ← (← required "type" members).asName?
  let content ← required "value" members
  if contentFirst members && !content.isReadable then none
  else Term.ofContent? kind content

/-! ## Variables and bindings -/

/-- A variable as its name. -/
def Variable.toJson (v : Variable) : Json := .string v.name

/-- A variable from its name. -/
def Variable.ofJson? (j : Json) : Option Variable := j.asString?.map Variable.mk

/-- A binding as an object from names to terms. -/
def Binding.toJson (b : Binding) : Json := .object (b.entries.map fun (v, t) => (v.name, t.toJson))

/-- The pairs that the members of an object write. -/
def pairsOfMembers? : List (String × Json) → Option (List (Variable × Term))
  | [] => some []
  | (name, v) :: rest => do
    let t ← Term.ofJson? v
    let pairs ← pairsOfMembers? rest
    return (⟨name⟩, t) :: pairs

/-- A binding from its object; of a repeated name the last member counts. -/
def Binding.ofJson? (j : Json) : Option Binding := do
  let members ← j.asObject?
  let pairs ← pairsOfMembers? members
  return Binding.ofPairs pairs

/-! ## Patterns and quads -/

/-- A position as an object with one member that says what it is. -/
def TermPattern.toJson : TermPattern → Json
  | .term t => .object [("Term", t.toJson)]
  | .var v => .object [("Variable", v.toJson)]

/-- A position from its object. -/
def TermPattern.ofJson? : Json → Option TermPattern
  | .object [(kind, v)] =>
    if kind = "Term" then (Term.ofJson? v).map .term
    else if kind = "Variable" then (Variable.ofJson? v).map .var
    else none
  | _ => none

/-- A pattern as an object. -/
def TriplePattern.toJson (p : TriplePattern) : Json :=
  .object [("subject", p.subject.toJson), ("predicate", p.predicate.toJson),
    ("object", p.object.toJson)]

/-- A pattern from its object. -/
def TriplePattern.ofJson? (j : Json) : Option TriplePattern := do
  let members ← j.asObject?
  let subject ← TermPattern.ofJson? (← required "subject" members)
  let predicate ← TermPattern.ofJson? (← required "predicate" members)
  let object ← TermPattern.ofJson? (← required "object" members)
  return ⟨subject, predicate, object⟩

/-- A quad as an object; the default graph is null. -/
def Quad.toJson (q : Quad) : Json :=
  .object [("subject", q.subject.toJson), ("predicate", q.predicate.toJson),
    ("object", q.object.toJson), ("graph_name", q.graph.elim .null Term.toJson)]

/-- A quad from its object; without a graph name it is in the default graph. -/
def Quad.ofJson? (j : Json) : Option Quad := do
  let members ← j.asObject?
  let subject ← Term.ofJson? (← required "subject" members)
  let predicate ← Term.ofJson? (← required "predicate" members)
  let object ← Term.ofJson? (← required "object" members)
  let graph ← Json.optionOf? Term.ofJson? (← optional "graph_name" members)
  return ⟨subject, predicate, object, graph⟩

end TripleQuery
