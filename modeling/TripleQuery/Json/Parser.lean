import TripleQuery.Json.Basic

/-!
# Reading JSON

The grammar of JSON, strictly: no leading zeros, no control characters in strings, nothing
but blanks after the value. Strings and numerals are read by recursion on the characters; values
are nested, so reading them is bounded by the length of the text, which every nested value
shortens.
-/

namespace TripleQuery.Json

/-- The four characters that may stand between tokens. -/
def isSpace (c : Char) : Bool := c == ' ' || c == '\n' || c == '\t' || c == '\r'

/-- The text from its first character that is not a blank. -/
def skipSpace (cs : List Char) : List Char := cs.dropWhile isSpace

/-! ## Strings -/

/-- The value of a hexadecimal digit. -/
def hexDigit? (c : Char) : Option Nat :=
  if c.isDigit then some (c.toNat - '0'.toNat)
  else if 'a' ≤ c ∧ c ≤ 'f' then some (c.toNat - 'a'.toNat + 10)
  else if 'A' ≤ c ∧ c ≤ 'F' then some (c.toNat - 'A'.toNat + 10)
  else none

/-- The number written by four hexadecimal digits. -/
def hex4? (a b c d : Char) : Option Nat := do
  let a ← hexDigit? a
  let b ← hexDigit? b
  let c ← hexDigit? c
  let d ← hexDigit? d
  return ((a * 16 + b) * 16 + c) * 16 + d

/-- The character that a one-letter escape stands for. -/
def simpleEscape? : Char → Option Char
  | '"' => some '"'
  | '\\' => some '\\'
  | '/' => some '/'
  | 'b' => some '\x08'
  | 'f' => some '\x0c'
  | 'n' => some '\n'
  | 'r' => some '\r'
  | 't' => some '\t'
  | _ => none

/-- The inside of a string up to its closing quote, as code points among which escapes may have
left surrogates, and the text behind the quote. -/
def readString : List Char → Option (List Nat × List Char)
  | [] => none
  | '"' :: rest => some ([], rest)
  | '\\' :: 'u' :: a :: b :: c :: d :: rest => do
    let n ← hex4? a b c d
    let (ns, rest) ← readString rest
    return (n :: ns, rest)
  | '\\' :: e :: rest => do
    let c ← simpleEscape? e
    let (ns, rest) ← readString rest
    return (c.toNat :: ns, rest)
  | c :: rest =>
    if c.toNat < 0x20 then none
    else (readString rest).map fun (ns, rest) => (c.toNat :: ns, rest)

/-- Code points as characters: a leading and a trailing surrogate make one, and a surrogate on
its own makes none. -/
def joinSurrogates : List Nat → Option (List Char)
  | [] => some []
  | [n] => if 0xd800 ≤ n ∧ n < 0xe000 then none else some [Char.ofNat n]
  | m :: n :: rest =>
    if 0xd800 ≤ m ∧ m < 0xdc00 ∧ 0xdc00 ≤ n ∧ n < 0xe000 then
      (joinSurrogates rest).map (Char.ofNat (0x10000 + (m - 0xd800) * 0x400 + (n - 0xdc00)) :: ·)
    else if 0xd800 ≤ m ∧ m < 0xe000 then none
    else (joinSurrogates (n :: rest)).map (Char.ofNat m :: ·)

/-- The text of a string, if its code points make one. -/
def textOf? (ns : List Nat) : Option String := (joinSurrogates ns).map String.ofList

/-! ## Numerals -/

/-- The characters that a numeral can have. -/
def isNumeralChar (c : Char) : Bool :=
  c.isDigit || c == '-' || c == '+' || c == '.' || c == 'e' || c == 'E'

/-- Whether the characters are an exponent: nothing, or `e`, an optional sign and digits. -/
def isExponent : List Char → Bool
  | [] => true
  | c :: cs =>
    let digits := (Binary64.splitSign cs).2
    (c == 'e' || c == 'E') && !digits.isEmpty && digits.all Char.isDigit

/-- Whether the characters are what may follow a numeral's whole part. -/
def isFraction : List Char → Bool
  | '.' :: cs => !(cs.takeWhile Char.isDigit).isEmpty && isExponent (cs.dropWhile Char.isDigit)
  | cs => isExponent cs

/-- The number written by some characters. -/
def numeral? (cs : List Char) : Option Json :=
  let (negative, unsigned) := match cs with
    | '-' :: cs => (true, cs)
    | cs => (false, cs)
  let whole := unsigned.takeWhile Char.isDigit
  let rest := unsigned.dropWhile Char.isDigit
  let n := Binary64.natOfDigits whole
  if whole = [] ∨ (whole.length ≠ 1 ∧ whole.head? = some '0') ∨ !isFraction rest then none
  else if rest = [] ∧ !(negative && n == 0) then
    some (.integer (if negative then -n else n))
  else some (.decimal (String.ofList cs))

/-! ## Values -/

mutual
/-- The value at the start of a text, and the text behind it. The number bounds the depth of the
recursion. -/
def readValue : Nat → List Char → Option (Json × List Char)
  | 0, _ => none
  | fuel + 1, cs =>
    match skipSpace cs with
    | 'n' :: 'u' :: 'l' :: 'l' :: rest => some (.null, rest)
    | 't' :: 'r' :: 'u' :: 'e' :: rest => some (.bool true, rest)
    | 'f' :: 'a' :: 'l' :: 's' :: 'e' :: rest => some (.bool false, rest)
    | '"' :: rest => do
      let (ns, rest) ← readString rest
      return ((textOf? ns).elim .unreadable .string, rest)
    | '[' :: rest =>
      match skipSpace rest with
      | ']' :: rest => some (.array [], rest)
      | rest => do
        let (items, rest) ← readItems fuel rest
        return (.array items, rest)
    | '\x7b' :: rest =>
      match skipSpace rest with
      | '\x7d' :: rest => some (.object [], rest)
      | rest => do
        let (members, rest) ← readMembers fuel rest
        return (members.elim .unreadable .object, rest)
    | cs => do
      let v ← numeral? (cs.takeWhile isNumeralChar)
      return (v, cs.dropWhile isNumeralChar)

/-- The items of an array that has at least one more, and the text behind its bracket. -/
def readItems : Nat → List Char → Option (List Json × List Char)
  | 0, _ => none
  | fuel + 1, cs => do
    let (v, rest) ← readValue fuel cs
    match skipSpace rest with
    | ',' :: rest => do
      let (items, rest) ← readItems fuel rest
      return (v :: items, rest)
    | ']' :: rest => return ([v], rest)
    | _ => none

/-- The members of an object that has at least one more, or none if a name spells no text, and
the text behind its brace. -/
def readMembers : Nat → List Char → Option (Option (List (String × Json)) × List Char)
  | 0, _ => none
  | fuel + 1, cs =>
    match skipSpace cs with
    | '"' :: rest => do
      let (ns, rest) ← readString rest
      match skipSpace rest with
      | ':' :: rest => do
        let (v, rest) ← readValue fuel rest
        let member := (textOf? ns).map (·, v)
        match skipSpace rest with
        | ',' :: rest => do
          let (members, rest) ← readMembers fuel rest
          return (member.bind fun e => members.map (e :: ·), rest)
        | '\x7d' :: rest => return (member.map ([·]), rest)
        | _ => none
      | _ => none
    | _ => none
end

/-- The value that a whole text writes. -/
def parse? (text : String) : Option Json :=
  let cs := text.toList
  match readValue (2 * cs.length + 1) cs with
  | some (v, rest) => if skipSpace rest = [] then some v else none
  | none => none

end TripleQuery.Json
