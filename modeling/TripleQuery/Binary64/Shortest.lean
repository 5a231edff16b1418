import TripleQuery.Binary64.Basic

/-!
# Writing doubles

The text of a finite double is the shortest decimal that reads back as the same double, and of
those the nearest to it. It is found on decimal grids, the multiples of a power of ten, from
coarse to fine: on the first grid that has a point among the reals that round to the double, one
of the two neighbours of the double is such a point. All comparisons are between natural numbers.
-/

namespace TripleQuery.Binary64

/-- The significand and exponent of a finite magnitude: it stands for `m * 2 ^ q`. -/
def split (magnitude : Nat) : Nat × Int :=
  let e : Nat := magnitude >>> 52
  if e = 0 then (magnitude, -1074) else (magnitude % (1 <<< 52) + (1 <<< 52), (e : Int) - 1075)

/-- The point of the grid of multiples of `10 ^ p` that reads back as `m * 2 ^ q`, as a multiple,
or none if no point does. A tie between two goes to the larger.

Distances are counted in quarters of the last bit: the reals that round to the double reach two
quarters to either side, or one quarter down where the exponent changes, and the ends belong to
them when the significand is even. -/
def gridPoint (m : Nat) (q p : Int) : Option Nat :=
  let grid := Nat.pow 10 p.toNat <<< (2 - q).toNat
  let quarter := Nat.pow 10 (-p).toNat <<< (q - 2).toNat
  let center := 4 * m * quarter
  let low := center - (if m = 1 <<< 52 ∧ -1074 < q then 1 else 2) * quarter
  let high := center + 2 * quarter
  let readsBack (d : Nat) : Bool :=
    (low < d * grid && d * grid < high) || (m % 2 == 0 && (d * grid == low || d * grid == high))
  let d := center / grid
  if readsBack d && readsBack (d + 1) then
    some (if (d + 1) * grid - center ≤ center - d * grid then d + 1 else d)
  else if readsBack d then some d
  else if readsBack (d + 1) then some (d + 1)
  else none

/-- The digits and the power of ten of the shortest decimal that reads back as `m * 2 ^ q`. The
grids tried reach from above the largest double to below the last digit of the smallest. -/
def shortest (m : Nat) (q : Int) : Nat × Int :=
  ((List.range 700).findSome? fun (i : Nat) =>
    let p : Int := 310 - (i : Nat)
    (gridPoint m q p).map (·, p)).getD (0, 0)

/-- A decimal written with a point and never an exponent, nor a point that nothing follows. -/
def positional (digits : List Char) (exponent : Int) : List Char :=
  if 0 ≤ exponent then digits ++ List.replicate exponent.toNat '0'
  else
    let places := (-exponent).toNat
    let padded := List.replicate (places + 1 - digits.length) '0' ++ digits
    padded.take (padded.length - places) ++ '.' :: padded.drop (padded.length - places)

/-- The text of a double. -/
def toText (x : Binary64) : String :=
  if x.isNaN then "NaN"
  else
    let body :=
      if x.magnitude = infinityMagnitude then ['i', 'n', 'f']
      else if x.magnitude = 0 then ['0']
      else
        let (m, q) := split x.magnitude
        let (digits, exponent) := shortest m q
        positional (Nat.toDigits 10 digits) exponent
    String.ofList (if x.negative then '-' :: body else body)

end TripleQuery.Binary64
