import TripleQuery.Binary64.Decimal

/-!
# JSON values

A JSON text as read: members of an object stay in order and may repeat, and numerals with a
fraction or an exponent stay as written. What a reader of the value makes of repeated members is
its own decision; `Json.required` and `Json.optional` refuse them.
-/

namespace TripleQuery

/-- A JSON value. -/
inductive Json where
  | null
  | bool (b : Bool)
  | integer (n : Int)
  /-- A numeral with a fraction or an exponent, or a negative zero, as written. -/
  | decimal (text : String)
  | string (s : String)
  | array (items : List Json)
  | object (members : List (String × Json))
  /-- A string, or an object with a name, whose escapes spell no text. It has the form of a value
  and can be skipped, but it cannot be read. -/
  | unreadable

namespace Json

instance : Inhabited Json := ⟨null⟩

/-! ## Members of objects -/

/-- The value of a member that has to be there once. -/
def required (name : String) (members : List (String × Json)) : Option Json :=
  match members.filter (·.1 == name) with
  | [(_, v)] => some v
  | _ => none

/-- The value of a member that may be there once; fails if it is repeated. -/
def optional (name : String) (members : List (String × Json)) : Option (Option Json) :=
  match members.filter (·.1 == name) with
  | [] => some none
  | [(_, v)] => some (some v)
  | _ => none

/-- The text of a string. -/
def asString? : Json → Option String
  | .string s => some s
  | _ => none

/-- The name that a choice without content is written as: a string, or an object that maps the
name to null. -/
def asName? : Json → Option String
  | .string name => some name
  | .object [(name, .null)] => some name
  | _ => none

/-- The truth value. -/
def asBool? : Json → Option Bool
  | .bool b => some b
  | _ => none

/-- The members of an object. -/
def asObject? : Json → Option (List (String × Json))
  | .object members => some members
  | _ => none

/-- The items of an array. -/
def asArray? : Json → Option (List Json)
  | .array items => some items
  | _ => none

/-- The number, if it is an integer. -/
def asInteger? : Json → Option Int
  | .integer n => some n
  | _ => none

/-! ## Values that can be read whole -/

mutual
/-- Whether everything in the value can be read: every text spells characters and every numeral
is within the range of doubles. -/
def isReadable : Json → Bool
  | .integer n => (Binary64.ofDecimal false n.natAbs 0).magnitude < Binary64.infinityMagnitude
  | .decimal text =>
    (Binary64.ofText? text.toList).any fun x => x.magnitude < Binary64.infinityMagnitude
  | .array items => allReadable items
  | .object members => allMembersReadable members
  | .unreadable => false
  | _ => true

/-- `isReadable` for the items of an array. -/
def allReadable : List Json → Bool
  | [] => true
  | v :: rest => v.isReadable && allReadable rest

/-- `isReadable` for the members of an object. -/
def allMembersReadable : List (String × Json) → Bool
  | [] => true
  | (_, v) :: rest => v.isReadable && allMembersReadable rest
end

end Json

end TripleQuery
