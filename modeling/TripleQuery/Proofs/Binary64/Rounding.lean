import Mathlib.Data.Nat.Log
import Mathlib.Order.Basic
import Mathlib.Tactic.Ring
import TripleQuery.Binary64.Decimal

/-!
# Natural numbers as doubles

Every natural number up to `2 ^ 53` is a double. Above that the doubles are `spacing n` apart and
a number is read as the one nearest to it, `nearestNat n`, so numbers that are close together fall
onto one double. Reading keeps the order weakly (`nearestNat_mono`), and the doubles read from two
numbers compare as their nearest doubles do: `magnitude_ofDecimal_lt_iff`.
-/

namespace TripleQuery.Binary64

/-! ## Rounding a quotient -/

/-- The rounded quotient is off by at most a half. -/
theorem roundDiv_close (n : Nat) {d : Nat} (hd : 0 < d) :
    2 * n ≤ 2 * (roundDiv n d * d) + d ∧ 2 * (roundDiv n d * d) ≤ 2 * n + d := by
  have hn : n / d * d + n % d = n := by
    rw [Nat.mul_comm]
    exact Nat.div_add_mod n d
  have hr : n % d < d := Nat.mod_lt n hd
  have hnext : (n / d + 1) * d = n / d * d + d := Nat.succ_mul _ _
  unfold roundDiv
  dsimp only
  split_ifs with hlow hhigh
  · omega
  · omega
  · -- the two neighbours are equally near
    rcases Nat.mod_two_eq_zero_or_one (n / d) with heven | hodd
    · rw [heven, Nat.add_zero]
      omega
    · rw [hodd]
      omega

theorem roundDiv_mul (m : Nat) {d : Nat} (hd : 0 < d) : roundDiv (m * d) d = m := by
  unfold roundDiv
  simp [Nat.mul_div_cancel m hd, hd]

theorem roundDiv_one (n : Nat) : roundDiv n 1 = n := by
  simpa using roundDiv_mul n Nat.one_pos

theorem roundDiv_mono {m n d : Nat} (hd : 0 < d) (h : m ≤ n) : roundDiv m d ≤ roundDiv n d := by
  by_contra hlt
  have hstep : (roundDiv n d + 1) * d ≤ roundDiv m d * d := Nat.mul_le_mul_right d (by omega)
  rw [Nat.succ_mul] at hstep
  have hm := (roundDiv_close m hd).2
  have hn := (roundDiv_close n hd).1
  have heq : m = n := by omega
  rw [heq] at hlt
  exact hlt le_rfl

/-! ## The nearest double -/

theorem log2_lt_of_lt {k n : Nat} (hk : 0 < k) (h : n < 2 ^ k) : n.log2 < k := by
  rcases Nat.eq_zero_or_pos n with rfl | hpos
  · rwa [Nat.log2_zero]
  · exact (Nat.log2_lt hpos.ne').2 h

/-- How far apart the doubles around a natural number are. -/
def spacing (n : Nat) : Nat := 2 ^ (n.log2 - 52)

/-- The double nearest to a natural number, a half going to the even fraction. -/
def nearestNat (n : Nat) : Nat := roundDiv n (spacing n) * spacing n

/-- The 53 bits that a natural number other than zero rounds to; they stand for a number from
`2 ^ 52` on, of which the last bit may be carried out. -/
def significand (n : Nat) : Nat := roundDiv (n * 2 ^ (52 - n.log2)) (2 ^ (n.log2 - 52))

theorem spacing_pos (n : Nat) : 0 < spacing n := Nat.two_pow_pos _

theorem significand_bounds {n : Nat} (hn : n ≠ 0) :
    2 ^ 52 ≤ significand n ∧ significand n ≤ 2 ^ 53 := by
  have hlow : 2 ^ n.log2 ≤ n := Nat.log2_self_le hn
  have hhigh : n ≤ 2 ^ (n.log2 + 1) := Nat.le_of_lt Nat.lt_log2_self
  have hpos : 0 < 2 ^ (n.log2 - 52) := Nat.two_pow_pos _
  have hpower (j : Nat) : roundDiv (2 ^ (n.log2 + j) * 2 ^ (52 - n.log2)) (2 ^ (n.log2 - 52)) =
      2 ^ (52 + j) := by
    have hscale : 2 ^ (n.log2 + j) * 2 ^ (52 - n.log2) = 2 ^ (52 + j) * 2 ^ (n.log2 - 52) := by
      rw [← Nat.pow_add, ← Nat.pow_add]
      congr 1
      omega
    rw [hscale, roundDiv_mul _ hpos]
  exact ⟨(hpower 0).ge.trans (roundDiv_mono hpos (Nat.mul_le_mul_right _ hlow)),
    (roundDiv_mono hpos (Nat.mul_le_mul_right _ hhigh)).trans (hpower 1).le⟩

theorem significand_scaled (n : Nat) : significand n * 2 ^ n.log2 = nearestNat n * 2 ^ 52 := by
  unfold significand nearestNat spacing
  rcases Nat.le_total 52 n.log2 with h | h
  · have hzero : 52 - n.log2 = 0 := by omega
    have hpow : 2 ^ n.log2 = 2 ^ (n.log2 - 52) * 2 ^ 52 := by
      rw [← Nat.pow_add]
      congr 1
      omega
    rw [hzero, Nat.pow_zero, Nat.mul_one, Nat.mul_assoc, ← hpow]
  · have hzero : n.log2 - 52 = 0 := by omega
    have hpow : 2 ^ (52 - n.log2) * 2 ^ n.log2 = 2 ^ 52 := by
      rw [← Nat.pow_add]
      congr 1
      omega
    rw [hzero, Nat.pow_zero, roundDiv_one, roundDiv_one, Nat.mul_one, Nat.mul_assoc, hpow]

theorem nearestNat_zero : nearestNat 0 = 0 := by decide

theorem nearestNat_pos {n : Nat} (hn : n ≠ 0) : 0 < nearestNat n := by
  have hsig : 0 < significand n * 2 ^ n.log2 :=
    Nat.mul_pos (by have := (significand_bounds hn).1; omega) (Nat.two_pow_pos _)
  rw [significand_scaled] at hsig
  exact Nat.pos_of_mul_pos_right hsig

/-- The nearest double is off by at most half the spacing. -/
theorem nearestNat_close (n : Nat) :
    2 * n ≤ 2 * nearestNat n + spacing n ∧ 2 * nearestNat n ≤ 2 * n + spacing n :=
  roundDiv_close n (spacing_pos n)

/-- **Up to `2 ^ 53` every natural number is a double.** -/
theorem nearestNat_of_le {n : Nat} (h : n ≤ 2 ^ 53) : nearestNat n = n := by
  rcases Nat.lt_or_eq_of_le h with hlt | rfl
  · have hlog : n.log2 - 52 = 0 := by
      have hlt' := log2_lt_of_lt (by decide) hlt
      omega
    unfold nearestNat spacing
    rw [hlog, Nat.pow_zero, roundDiv_one, Nat.mul_one]
  · decide

/-! ## The order of magnitudes -/

/-- A significand with the smaller exponent is at most one with a larger exponent, and equal to it
only if it carries into the next exponent. -/
theorem scaled_le_scaled {k l m n : Nat} (hm : m ≤ 2 ^ 53) (hn : 2 ^ 52 ≤ n) (h : k < l) :
    m * 2 ^ k ≤ n * 2 ^ l ∧ (m * 2 ^ k = n * 2 ^ l ↔ l = k + 1 ∧ m = 2 ^ 53 ∧ n = 2 ^ 52) := by
  obtain ⟨d, rfl⟩ : ∃ d, l = k + 1 + d := ⟨l - (k + 1), by omega⟩
  have hpow : n * 2 ^ (k + 1 + d) = n * 2 ^ d * 2 * 2 ^ k := by ring
  have hd : n ≤ n * 2 ^ d := Nat.le_mul_of_pos_right n (Nat.two_pow_pos d)
  rw [hpow, Nat.mul_left_inj (Nat.two_pow_pos k).ne']
  refine ⟨Nat.mul_le_mul_right _ (by omega), fun heq => ?_, ?_⟩
  · rcases Nat.eq_zero_or_pos d with rfl | hpos
    · omega
    · have htwice : n * 2 ≤ n * 2 ^ d :=
        Nat.mul_le_mul_left n (Nat.le_self_pow (by omega) 2)
      omega
  · rintro ⟨hexp, rfl, rfl⟩
    obtain rfl : d = 0 := by omega
    rfl

/-- Magnitudes compare as the numbers that they stand for. -/
theorem sum_lt_iff_scaled_lt {k l m n : Nat} (hm : 2 ^ 52 ≤ m ∧ m ≤ 2 ^ 53)
    (hn : 2 ^ 52 ≤ n ∧ n ≤ 2 ^ 53) :
    k * 2 ^ 52 + m < l * 2 ^ 52 + n ↔ m * 2 ^ k < n * 2 ^ l := by
  rcases Nat.lt_trichotomy k l with h | rfl | h
  · obtain ⟨hle, heq⟩ := scaled_le_scaled hm.2 hn.1 h
    rw [Nat.lt_iff_le_and_ne, Nat.lt_iff_le_and_ne, ne_eq, ne_eq, heq]
    omega
  · rw [Nat.mul_lt_mul_right (Nat.two_pow_pos k)]
    omega
  · have hle := (scaled_le_scaled hn.2 hm.1 h).1
    omega

theorem significand_lt_iff {m n : Nat} (hm : m ≠ 0) (hn : n ≠ 0) :
    m.log2 * 2 ^ 52 + significand m < n.log2 * 2 ^ 52 + significand n ↔
      nearestNat m < nearestNat n := by
  rw [sum_lt_iff_scaled_lt (significand_bounds hm) (significand_bounds hn), significand_scaled,
    significand_scaled, Nat.mul_lt_mul_right (by decide)]

/-- **Rounding keeps the order weakly.** -/
theorem nearestNat_mono {m n : Nat} (h : m ≤ n) : nearestNat m ≤ nearestNat n := by
  rcases Nat.eq_zero_or_pos m with rfl | hm
  · rw [nearestNat_zero]
    exact Nat.zero_le _
  · have hlog : m.log2 ≤ n.log2 :=
      (Nat.le_log2 (by omega)).2 ((Nat.log2_self_le hm.ne').trans h)
    rcases Nat.lt_or_eq_of_le hlog with hlt | heq
    · by_contra hgt
      have hsum := (significand_lt_iff (by omega) hm.ne').2 (Nat.lt_of_not_le hgt)
      have hsm := significand_bounds hm.ne'
      have hsn := significand_bounds (n := n) (by omega)
      omega
    · unfold nearestNat spacing
      rw [heq]
      exact Nat.mul_le_mul_right _ (roundDiv_mono (Nat.two_pow_pos _) h)

/-! ## Reading -/

theorem lastBitExponent_natural (n : Nat) (hn : n ≠ 0) :
    lastBitExponent n 1 = (n.log2 : Int) - 52 := by
  have hone : (1 : Nat).log2 = 0 := by decide
  have hle : 1 <<< ((n.log2 : Int) - (0 : Nat)).toNat ≤
      n <<< (-((n.log2 : Int) - (0 : Nat))).toNat := by
    have hexp : ((n.log2 : Int) - (0 : Nat)).toNat = n.log2 := by omega
    have hzero : (-((n.log2 : Int) - (0 : Nat))).toNat = 0 := by omega
    rw [hexp, hzero, Nat.shiftLeft_zero, Nat.one_shiftLeft]
    exact Nat.log2_self_le hn
  unfold lastBitExponent
  rw [hone]
  simp only [if_pos hle]
  omega

/-- The magnitude of the double read from a natural number other than zero. -/
theorem magnitude_ofRatio_natural (negative : Bool) {n : Nat} (hn : n ≠ 0) (hlog : n.log2 < 1023) :
    (ofRatio negative n 1).magnitude = (n.log2 + 1022) * 2 ^ 52 + significand n := by
  have hneg : (-((n.log2 : Int) - 52)).toNat = 52 - n.log2 := by omega
  have hpos : ((n.log2 : Int) - 52).toNat = n.log2 - 52 := by omega
  have hexp : ((n.log2 : Int) - 52 + 1074).toNat = n.log2 + 1022 := by omega
  have hsig := (significand_bounds hn).2
  unfold ofRatio
  rw [if_neg hn]
  simp only [lastBitExponent_natural n hn, hneg, hpos, hexp, Nat.shiftLeft_eq, Nat.one_mul]
  show min ((n.log2 + 1022) * 2 ^ 52 + significand n) infinityMagnitude = _
  refine Nat.min_eq_left ?_
  unfold infinityMagnitude
  omega

theorem ofDecimal_natural (negative : Bool) {n : Nat} (hn : n ≠ 0) :
    ofDecimal negative n 0 = ofRatio negative n 1 := by
  have hlog : ¬ (0 + n.log2 : Int) < -400 := by omega
  simp [ofDecimal, hn]

theorem negative_ofDecimal (negative : Bool) (n : Nat) :
    (ofDecimal negative n 0).negative = negative := by
  rcases Nat.eq_zero_or_pos n with rfl | hn
  · rfl
  · rw [ofDecimal_natural negative hn.ne', ofRatio, if_neg hn.ne']

theorem magnitude_ofDecimal (negative : Bool) {n : Nat} (hn : n ≠ 0) (hlog : n.log2 < 1023) :
    (ofDecimal negative n 0).magnitude = (n.log2 + 1022) * 2 ^ 52 + significand n := by
  rw [ofDecimal_natural negative hn, magnitude_ofRatio_natural negative hn hlog]

/-- **The doubles read from two natural numbers compare as the doubles nearest to these.** -/
theorem magnitude_ofDecimal_lt_iff (s t : Bool) {m n : Nat} (hm : m.log2 < 1023)
    (hn : n.log2 < 1023) :
    (ofDecimal s m 0).magnitude < (ofDecimal t n 0).magnitude ↔ nearestNat m < nearestNat n := by
  have hzero (u : Bool) : (ofDecimal u 0 0).magnitude = 0 := rfl
  by_cases hm0 : m = 0
  · subst hm0
    by_cases hn0 : n = 0
    · subst hn0
      simp [hzero]
    · have hpos := nearestNat_pos hn0
      have hsig := (significand_bounds hn0).1
      rw [hzero, magnitude_ofDecimal t hn0 hn, nearestNat_zero]
      omega
  · by_cases hn0 : n = 0
    · subst hn0
      simp [hzero, nearestNat_zero]
    · rw [magnitude_ofDecimal s hm0 hm, magnitude_ofDecimal t hn0 hn,
        ← significand_lt_iff hm0 hn0]
      omega

/-! ## Integers -/

/-- The double read from the decimal digits of an integer. -/
def ofInt (z : Int) : Binary64 := ofDecimal (z < 0) z.natAbs 0

/-- The double nearest to an integer, a half going to the even fraction. -/
def nearest (z : Int) : Int := z.sign * nearestNat z.natAbs

theorem nearest_of_neg {z : Int} (h : z < 0) : nearest z = -nearestNat z.natAbs := by
  rw [nearest, Int.sign_eq_neg_one_of_neg h, Int.neg_one_mul]

theorem nearest_of_nonneg {z : Int} (h : 0 ≤ z) : nearest z = nearestNat z.natAbs := by
  rcases Int.lt_or_eq_of_le h with hpos | rfl
  · rw [nearest, Int.sign_eq_one_of_pos hpos, Int.one_mul]
  · rfl

/-- **Up to `2 ^ 53` every integer is a double.** -/
theorem nearest_of_natAbs_le {z : Int} (h : z.natAbs ≤ 2 ^ 53) : nearest z = z := by
  rw [nearest, nearestNat_of_le h, Int.sign_mul_natAbs]

theorem nearest_mono {a b : Int} (h : a ≤ b) : nearest a ≤ nearest b := by
  rcases lt_or_ge a 0 with ha | ha <;> rcases lt_or_ge b 0 with hb | hb
  · have hmono := nearestNat_mono (m := b.natAbs) (n := a.natAbs) (by omega)
    rw [nearest_of_neg ha, nearest_of_neg hb]
    omega
  · rw [nearest_of_neg ha, nearest_of_nonneg hb]
    omega
  · omega
  · have hmono := nearestNat_mono (m := a.natAbs) (n := b.natAbs) (by omega)
    rw [nearest_of_nonneg ha, nearest_of_nonneg hb]
    omega

theorem magnitude_ofDecimal_le (negative : Bool) (n : Nat) :
    (ofDecimal negative n 0).magnitude ≤ infinityMagnitude := by
  by_cases hn : n = 0
  · subst hn
    exact Nat.zero_le _
  · rw [ofDecimal_natural negative hn, ofRatio, if_neg hn]
    exact Nat.min_le_right ..

theorem isNaN_ofInt (z : Int) : (ofInt z).isNaN = false := by
  have h := magnitude_ofDecimal_le (z < 0) z.natAbs
  exact decide_eq_false (Nat.not_lt.2 h)

theorem value_ofInt (z : Int) :
    (ofInt z).value = if z < 0 then -((ofInt z).magnitude : Int) else (ofInt z).magnitude := by
  simp [value, ofInt, negative_ofDecimal]

theorem rank_ofInt (z : Int) :
    (ofInt z).rank = if z < 0 then -1 - ((ofInt z).magnitude : Int) else (ofInt z).magnitude := by
  simp [rank, ofInt, negative_ofDecimal]

theorem compare_congr {a b c d : Int} (hlt : a < b ↔ c < d) (hgt : b < a ↔ d < c) :
    compare a b = compare c d := by
  simp only [compare, compareOfLessAndEq]
  split_ifs <;> first | rfl | omega

theorem magnitude_ofInt_pos {z : Int} (hz : z ≠ 0) (hlog : z.natAbs.log2 < 1023) :
    0 < (ofInt z).magnitude := by
  have hnat : z.natAbs ≠ 0 := Int.natAbs_ne_zero.2 hz
  have hsig := (significand_bounds hnat).1
  rw [ofInt, magnitude_ofDecimal _ hnat hlog]
  omega

section Order

variable {a b : Int} (ha : a.natAbs.log2 < 1023) (hb : b.natAbs.log2 < 1023)
include ha hb

theorem magnitude_ofInt_lt_iff :
    (ofInt a).magnitude < (ofInt b).magnitude ↔ nearestNat a.natAbs < nearestNat b.natAbs :=
  magnitude_ofDecimal_lt_iff _ _ ha hb

/-- The order of the values of two integers read as doubles, and also their place in the total
order: an integer is never read as a negative zero. -/
theorem value_ofInt_lt_iff :
    ((ofInt a).value < (ofInt b).value ↔ nearest a < nearest b) ∧
      ((ofInt a).rank < (ofInt b).rank ↔ nearest a < nearest b) := by
  have hlt := magnitude_ofInt_lt_iff ha hb
  have hgt := magnitude_ofInt_lt_iff hb ha
  rw [value_ofInt, value_ofInt, rank_ofInt, rank_ofInt]
  rcases lt_or_ge a 0 with hna | hna <;> rcases lt_or_ge b 0 with hnb | hnb
  · rw [nearest_of_neg hna, nearest_of_neg hnb]
    simp only [if_pos hna, if_pos hnb]
    omega
  · have hmag := magnitude_ofInt_pos hna.ne ha
    have hnear := nearestNat_pos (Int.natAbs_ne_zero.2 hna.ne)
    rw [nearest_of_neg hna, nearest_of_nonneg hnb]
    simp only [if_pos hna, if_neg hnb.not_gt]
    omega
  · have hmag := magnitude_ofInt_pos hnb.ne hb
    have hnear := nearestNat_pos (Int.natAbs_ne_zero.2 hnb.ne)
    rw [nearest_of_nonneg hna, nearest_of_neg hnb]
    simp only [if_neg hna.not_gt, if_pos hnb]
    omega
  · rw [nearest_of_nonneg hna, nearest_of_nonneg hnb]
    simp only [if_neg hna.not_gt, if_neg hnb.not_gt]
    omega

theorem compare?_ofInt : (ofInt a).compare? (ofInt b) = some (compare (nearest a) (nearest b)) := by
  unfold compare?
  rw [isNaN_ofInt, isNaN_ofInt]
  exact congrArg some
    (compare_congr (value_ofInt_lt_iff ha hb).1 (value_ofInt_lt_iff hb ha).1)

theorem totalCompare_ofInt : (ofInt a).totalCompare (ofInt b) = compare (nearest a) (nearest b) :=
  compare_congr (value_ofInt_lt_iff ha hb).2 (value_ofInt_lt_iff hb ha).2

end Order

end TripleQuery.Binary64
