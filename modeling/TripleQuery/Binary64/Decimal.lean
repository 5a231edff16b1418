import TripleQuery.Binary64.Basic

/-!
# Reading doubles

A decimal numeral denotes the double nearest to its exact value, a tie going to the even
fraction and a value past the largest double to infinity. The computation is exact: the value is
a quotient of two natural numbers, and one division rounds it.
-/

namespace TripleQuery.Binary64

/-- The natural number nearest to a quotient, a half going to the even neighbour. -/
def roundDiv (num den : Nat) : Nat :=
  let q := num / den
  let r := num % den
  if 2 * r < den then q
  else if den < 2 * r then q + 1
  else q + q % 2

/-- The exponent of the last bit of the double nearest to a positive quotient: 53 bits fit above
it, unless the value is so small that the least exponent is reached. -/
def lastBitExponent (num den : Nat) : Int :=
  let k : Int := num.log2 - den.log2
  let leading := if den <<< k.toNat ≤ num <<< (-k).toNat then k else k - 1
  max (leading - 52) (-1074)

/-- The double nearest to a quotient of natural numbers. -/
def ofRatio (negative : Bool) (num den : Nat) : Binary64 :=
  if num = 0 then zero negative
  else
    let q := lastBitExponent num den
    let m := roundDiv (num <<< (-q).toNat) (den <<< q.toNat)
    ⟨negative, min (((q + 1074).toNat <<< 52) + m) infinityMagnitude,
      Nat.lt_of_le_of_lt (Nat.min_le_right ..) infinityMagnitude_lt⟩

/-- The double nearest to `digits * 10 ^ exponent`. Exponents whose outcome is plain are decided
without computing the power. -/
def ofDecimal (negative : Bool) (digits : Nat) (exponent : Int) : Binary64 :=
  if digits = 0 then zero negative
  else if 400 < exponent then infinity negative
  else if exponent + digits.log2 < -400 then zero negative
  else ofRatio negative (digits * Nat.pow 10 exponent.toNat) (Nat.pow 10 (-exponent).toNat)

/-! ## Numerals -/

/-- The number that a list of decimal digits denotes. -/
def natOfDigits (cs : List Char) : Nat :=
  cs.foldl (fun n c => 10 * n + (c.toNat - '0'.toNat)) 0

/-- A sign in front, if there is one, and what follows it. -/
def splitSign : List Char → Bool × List Char
  | '-' :: cs => (true, cs)
  | '+' :: cs => (false, cs)
  | cs => (false, cs)

/-- The exponent after a numeral's digits: nothing, or `e`, an optional sign and digits. -/
def readExponent : List Char → Option Int
  | [] => some 0
  | c :: cs =>
    let (negative, digits) := splitSign cs
    if (c = 'e' ∨ c = 'E') ∧ digits ≠ [] ∧ digits.all Char.isDigit then
      some (if negative then -(natOfDigits digits) else natOfDigits digits)
    else none

/-- An unsigned numeral: digits with an optional point among or around them, at least one digit
in all, then an optional exponent. -/
def readNumeral (negative : Bool) (cs : List Char) : Option Binary64 :=
  let whole := cs.takeWhile Char.isDigit
  let rest := cs.dropWhile Char.isDigit
  let (fraction, rest) := match rest with
    | '.' :: rest => (rest.takeWhile Char.isDigit, rest.dropWhile Char.isDigit)
    | rest => ([], rest)
  if whole = [] ∧ fraction = [] then none
  else (readExponent rest).map fun e =>
    ofDecimal negative (natOfDigits (whole ++ fraction)) (e - fraction.length)

/-- A double from its text: an optional sign, then a numeral or, in any letter case, `inf`,
`infinity` or `nan`. -/
def ofText? (cs : List Char) : Option Binary64 :=
  let (negative, cs) := splitSign cs
  let word := cs.map Char.toLower
  if word = ['i', 'n', 'f'] ∨ word = ['i', 'n', 'f', 'i', 'n', 'i', 't', 'y'] then
    some (infinity negative)
  else if word = ['n', 'a', 'n'] then some (nan negative)
  else readNumeral negative cs

end TripleQuery.Binary64
