import TripleQuery.Text.Blank
import TripleQuery.Text.Escape

/-!
# Variables

A variable is a name. In a query it is written with a question mark or a dollar sign in front,
which is not part of the name.
-/

namespace TripleQuery

/-- A query variable. -/
structure Variable where
  name : String
deriving DecidableEq

namespace Variable

/-- The variable written as `text`: one leading `?` or `$` is dropped. -/
def ofText (text : String) : Variable :=
  match text.toList with
  | '?' :: cs => ⟨String.ofList cs⟩
  | '$' :: cs => ⟨String.ofList cs⟩
  | _ => ⟨text⟩

/-- Whether the name can stand in a query: not empty and without blanks. -/
def isValid (v : Variable) : Bool :=
  !v.name.isEmpty && !v.name.toList.any Text.isBlank

/-- A name that no variable can have. -/
structure Invalid where
  name : String
deriving DecidableEq

/-- The text about an invalid name. -/
def Invalid.message (e : Invalid) : String := "invalid variable name: " ++ Text.quoted e.name

/-- The variable written as `text`, if its name is valid. -/
def ofText? (text : String) : Except Invalid Variable :=
  let v := ofText text
  if v.isValid then .ok v else .error ⟨v.name⟩

/-- The written form of a variable. -/
def render (v : Variable) : String := "?" ++ v.name

end Variable

end TripleQuery
