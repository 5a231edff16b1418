/-!
# Double-precision numbers

A double is a sign and a magnitude, the magnitude being the 63 low bits of its interchange
format: exponent, then fraction. Read as a natural number the magnitude grows with the absolute
value, and everything above infinity is a NaN, so both orders on doubles are orders on integers.
-/

namespace TripleQuery

/-- A double-precision number in sign-magnitude form. -/
structure Binary64 where
  negative : Bool
  magnitude : Nat
  magnitude_lt : magnitude < 1 <<< 63
deriving DecidableEq

namespace Binary64

/-- The magnitude of infinity: all exponent bits set, no fraction. -/
def infinityMagnitude : Nat := 0x7ff <<< 52

theorem infinityMagnitude_lt : infinityMagnitude < 1 <<< 63 := by decide

/-- The double with the given 64 bits. -/
def ofBits (bits : UInt64) : Binary64 where
  negative := 1 <<< 63 ≤ bits.toNat
  magnitude := bits.toNat % (1 <<< 63)
  magnitude_lt := Nat.mod_lt _ (by decide)

/-- The 64 bits of a double, as a number. -/
def toBits (x : Binary64) : Nat := if x.negative then (1 <<< 63) + x.magnitude else x.magnitude

/-- Zero with a sign. -/
def zero (negative : Bool) : Binary64 := ⟨negative, 0, by decide⟩

/-- Infinity with a sign. -/
def infinity (negative : Bool) : Binary64 := ⟨negative, infinityMagnitude, infinityMagnitude_lt⟩

/-- The quiet NaN with an empty payload, with a sign. -/
def nan (negative : Bool) : Binary64 := ⟨negative, infinityMagnitude + (1 <<< 51), by decide⟩

/-- Whether the double is not a number. -/
def isNaN (x : Binary64) : Bool := infinityMagnitude < x.magnitude

/-- Whether the double is zero, of either sign. -/
def isZero (x : Binary64) : Bool := x.magnitude == 0

/-! ## The two orders -/

/-- An integer that grows with the numeric value; both zeros have the same one. -/
def value (x : Binary64) : Int := if x.negative then -x.magnitude else x.magnitude

/-- The numeric order: partial, because a NaN compares with nothing. -/
def compare? (x y : Binary64) : Option Ordering :=
  if x.isNaN || y.isNaN then none else some (compare x.value y.value)

/-- The place of a double when all of them are lined up: negative NaNs, negative numbers,
negative zero, positive zero, positive numbers, positive NaNs. -/
def rank (x : Binary64) : Int := if x.negative then -1 - x.magnitude else x.magnitude

/-- The total order, which tells apart the two zeros and all the NaNs. -/
def totalCompare (x y : Binary64) : Ordering := compare x.rank y.rank

theorem rank_inj {x y : Binary64} (h : x.rank = y.rank) : x = y := by
  obtain ⟨nx, mx, hx⟩ := x
  obtain ⟨ny, my, hy⟩ := y
  simp only [rank] at h
  cases nx <;> cases ny <;> simp at h ⊢ <;> omega

theorem rank_lt_of_value_lt {x y : Binary64} (h : x.value < y.value) : x.rank < y.rank := by
  simp only [value, rank] at h ⊢
  split at h <;> split at h <;> simp_all <;> omega

end Binary64

end TripleQuery
