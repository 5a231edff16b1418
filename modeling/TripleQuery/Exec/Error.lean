import TripleQuery.Dataset.Basic

/-!
# Execution errors

What ends a query early. Conditions of single rows, such as incompatible bindings or expressions
without a value, are not among them: the operators deal with those.
-/

namespace TripleQuery

/-- Why a query cannot be compiled or cannot go on. -/
inductive ExecError where
  /-- An operator or extension has no realization. -/
  | unsupported (operator reason : String)
  | dataset (e : DatasetError)
  | cancelled
  /-- A buffer has grown past its limit. -/
  | tooLarge (actual limit : Nat)
  | internal (reason : String)
deriving DecidableEq

namespace ExecError

/-- The text of an execution error. -/
def message : ExecError → String
  | unsupported operator reason => "unsupported operator " ++ operator ++ ": " ++ reason
  | dataset e => "dataset access failed: " ++ e.message
  | cancelled => "query execution cancelled"
  | tooLarge actual limit =>
    "query too large: " ++ toString actual ++ " rows buffered, limit is " ++ toString limit
  | internal reason => "internal execution error: " ++ reason

/-- Whether the error is that something has no realization. -/
def isUnsupported : ExecError → Bool
  | unsupported .. => true
  | _ => false

end ExecError

end TripleQuery
