import TripleQuery.Text.Escape
import TripleQuery.Binary64.Shortest

/-!
# Terms

The values that triples are made of: blank nodes, IRIs and literals. Equality is identity: two
literals are equal only if lexical form, datatype and language tag all agree, so `"01"` and `"1"`
are different integers. Comparison by value is in `TripleQuery.Term.Order`.
-/

namespace TripleQuery

/-! ## Datatypes -/

namespace Datatype

def string : String := "http://www.w3.org/2001/XMLSchema#string"
def boolean : String := "http://www.w3.org/2001/XMLSchema#boolean"
def integer : String := "http://www.w3.org/2001/XMLSchema#integer"
def decimal : String := "http://www.w3.org/2001/XMLSchema#decimal"
def double : String := "http://www.w3.org/2001/XMLSchema#double"
def float : String := "http://www.w3.org/2001/XMLSchema#float"

/-- The datatype of strings with a language tag. -/
def langString : String := "http://www.w3.org/1999/02/22-rdf-syntax-ns#langString"

/-- The datatypes whose literals denote numbers. -/
def isNumeric (iri : String) : Bool :=
  iri == integer || iri == decimal || iri == double || iri == float

end Datatype

/-! ## Literals -/

/-- A literal: a lexical form, a datatype and possibly a language tag. -/
structure Literal where
  lexical : String
  datatype : String
  language : Option String
deriving DecidableEq

namespace Literal

/-- A literal without a language tag. -/
def typed (lexical datatype : String) : Literal := ⟨lexical, datatype, none⟩

/-- A plain string. -/
def string (lexical : String) : Literal := typed lexical Datatype.string

/-- A string with a language tag, which is kept in lower case. -/
def langString (lexical language : String) : Literal :=
  ⟨lexical, Datatype.langString, some (String.ofList (language.toList.map Char.toLower))⟩

/-- Whether the datatype is one of numbers. -/
def isNumeric (l : Literal) : Bool := Datatype.isNumeric l.datatype

/-- Whether the literal is a plain string or has a language tag. -/
def isString (l : Literal) : Bool := l.datatype == Datatype.string || l.language.isSome

/-- The written form: a language tag hides the datatype, and so does being a plain string. -/
def render (l : Literal) : String :=
  let body := "\"" ++ Text.escapeAscii l.lexical ++ "\""
  match l.language with
  | some tag => body ++ "@" ++ tag
  | none =>
    if l.datatype = Datatype.string then body else body ++ "^^<" ++ l.datatype ++ ">"

end Literal

/-! ## Terms -/

/-- A blank node, an IRI or a literal. -/
inductive Term where
  | blank (label : String)
  | iri (text : String)
  | literal (l : Literal)
deriving DecidableEq

namespace Term

/-- A plain string. -/
def string (value : String) : Term := .literal (.string value)

/-- An integer, in decimal digits. -/
def integer (value : Int) : Term := .literal (.typed (toString value) Datatype.integer)

/-- A double, in its shortest decimal form. -/
def double (value : Binary64) : Term := .literal (.typed value.toText Datatype.double)

/-- A truth value. -/
def boolean (value : Bool) : Term :=
  .literal (.typed (if value then "true" else "false") Datatype.boolean)

/-- The literal, if the term is one. -/
def asLiteral? : Term → Option Literal
  | .literal l => some l
  | _ => none

def isIri : Term → Bool
  | .iri _ => true
  | _ => false

def isBlank : Term → Bool
  | .blank _ => true
  | _ => false

def isLiteral : Term → Bool
  | .literal _ => true
  | _ => false

/-- The written form of a term. -/
def render : Term → String
  | .blank label => "_:" ++ label
  | .iri text => "<" ++ text ++ ">"
  | .literal l => l.render

instance : Inhabited Term := ⟨.iri ""⟩

end Term

end TripleQuery
