import TripleQuery.Term.Basic
import TripleQuery.Text.Blank
import TripleQuery.Binary64.Decimal

/-!
# Values of literals

What a literal denotes, where that is defined: a double for the numeric datatypes, a truth value
for booleans. Malformed lexical forms denote nothing.
-/

namespace TripleQuery.Literal

/-- The double that a numeric literal denotes, blanks around it ignored. -/
def number? (l : Literal) : Option Binary64 :=
  if l.isNumeric then Binary64.ofText? (Text.trimBlanks l.lexical.toList) else none

/-- The truth value that a boolean literal denotes. -/
def truth? (l : Literal) : Option Bool :=
  if l.datatype = Datatype.boolean then
    if l.lexical = "true" ∨ l.lexical = "1" then some true
    else if l.lexical = "false" ∨ l.lexical = "0" then some false
    else none
  else none

theorem isNumeric_of_number? {l : Literal} {x : Binary64} (h : l.number? = some x) :
    l.isNumeric = true := by
  by_cases hn : l.isNumeric = true
  · exact hn
  · simp [number?, hn] at h

theorem datatype_of_truth? {l : Literal} {b : Bool} (h : l.truth? = some b) :
    l.datatype = Datatype.boolean := by
  by_cases hd : l.datatype = Datatype.boolean
  · exact hd
  · simp [truth?, hd] at h

end TripleQuery.Literal
