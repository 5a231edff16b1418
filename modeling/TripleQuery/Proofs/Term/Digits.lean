import Mathlib.Data.List.TakeWhile
import TripleQuery.Proofs.Binary64.Rounding
import TripleQuery.Term.Value

/-!
# Integers in decimal digits

The lexical form of an integer is its decimal digits with a minus sign in front if it is negative.
Read as a double it gives `Binary64.ofInt` of the integer (`number?_integer`). Compared as texts,
digits of one length compare as the numbers do and digits of different lengths by the leading
digit, which for two numbers close together is a nine before a one: `compare_repr`.
-/

namespace TripleQuery

open Binary64

/-! ## Reading -/

theorem isBlank_of_isDigit {c : Char} (h : c.isDigit = true) : Text.isBlank c = false := by
  simp only [Char.isDigit, Bool.and_eq_true, decide_eq_true_eq, UInt32.le_iff_toNat_le] at h
  have hlow : 48 ≤ c.toNat := h.1
  have hhigh : c.toNat ≤ 57 := h.2
  simp only [Text.isBlank, Bool.or_eq_false_iff, Bool.and_eq_false_iff, decide_eq_false_iff_not,
    beq_eq_false_iff_ne]
  omega

theorem trimBlanks_of_not_isBlank {cs : List Char} (h : ∀ c ∈ cs, Text.isBlank c = false) :
    Text.trimBlanks cs = cs := by
  have hdrop {ds : List Char} (hds : ∀ c ∈ ds, Text.isBlank c = false) :
      ds.dropWhile Text.isBlank = ds := by
    cases ds with
    | nil => rfl
    | cons d rest => simp [hds d]
  unfold Text.trimBlanks
  rw [hdrop h, hdrop fun c hc => h c (List.mem_reverse.1 hc), List.reverse_reverse]

theorem isDigit_toDigits {n : Nat} {c : Char} (h : c ∈ Nat.toDigits 10 n) : c.isDigit = true :=
  Nat.isDigit_of_mem_toDigits (by decide) (by decide) h

theorem natOfDigits_toDigits (n : Nat) : natOfDigits (Nat.toDigits 10 n) = n :=
  Nat.ofDigitChars_ten_toDigits

theorem readNumeral_toDigits (negative : Bool) (n : Nat) :
    readNumeral negative (Nat.toDigits 10 n) = some (ofDecimal negative n 0) := by
  have htake : (Nat.toDigits 10 n).takeWhile Char.isDigit = Nat.toDigits 10 n :=
    List.takeWhile_eq_self_iff.2 fun _ => isDigit_toDigits
  have hdrop : (Nat.toDigits 10 n).dropWhile Char.isDigit = [] :=
    List.dropWhile_eq_nil_iff.2 fun _ => isDigit_toDigits
  unfold readNumeral
  simp [htake, hdrop, readExponent, natOfDigits_toDigits]

theorem toLower_of_isDigit {c : Char} (h : c.isDigit = true) : c.toLower = c := by
  simp only [Char.isDigit, Bool.and_eq_true, decide_eq_true_eq, UInt32.le_iff_toNat_le] at h
  have hhigh : c.toNat ≤ 57 := h.2
  unfold Char.toLower
  split
  · next hupper =>
    have hlow : 65 ≤ c.toNat := hupper.1
    omega
  · rfl

theorem splitSign_toDigits (n : Nat) :
    splitSign (Nat.toDigits 10 n) = (false, Nat.toDigits 10 n) := by
  have hdigit {c : Char} (h : c ∈ Nat.toDigits 10 n) := isDigit_toDigits h
  unfold splitSign
  split
  · next heq =>
    have hminus := hdigit (heq ▸ List.mem_cons_self)
    exact absurd hminus (by decide)
  · next heq =>
    have hplus := hdigit (heq ▸ List.mem_cons_self)
    exact absurd hplus (by decide)
  · rfl

/-- Digits with or without a minus sign are read as a numeral, not as one of the words. -/
theorem ofText?_digits (negative : Bool) (n : Nat) :
    ofText? (if negative then '-' :: Nat.toDigits 10 n else Nat.toDigits 10 n) =
      some (ofDecimal negative n 0) := by
  have hsign : splitSign (if negative then '-' :: Nat.toDigits 10 n else Nat.toDigits 10 n) =
      (negative, Nat.toDigits 10 n) := by
    cases negative with
    | true => rfl
    | false => exact splitSign_toDigits n
  have hlower : (Nat.toDigits 10 n).map Char.toLower = Nat.toDigits 10 n := by
    rw [List.map_congr_left fun c hc => toLower_of_isDigit (isDigit_toDigits hc)]
    exact List.map_id' _
  have hword {c : Char} (hc : c.isDigit = false) (rest : List Char) :
      Nat.toDigits 10 n ≠ c :: rest := by
    intro heq
    have hmem : c ∈ Nat.toDigits 10 n := heq ▸ List.mem_cons_self
    rw [isDigit_toDigits hmem] at hc
    cases hc
  unfold ofText?
  simp [hsign, hlower, hword, readNumeral_toDigits]

theorem toList_toString (z : Int) :
    (toString z).toList =
      if decide (z < 0) = true then '-' :: Nat.toDigits 10 z.natAbs
      else Nat.toDigits 10 z.natAbs := by
  rw [Int.toString_eq_repr, Int.repr_eq_if]
  rcases lt_or_ge z 0 with hz | hz
  · have hnat : (-z).toNat = z.natAbs := by omega
    simp [hz, hz.not_ge, hnat]
  · have hnat : z.toNat = z.natAbs := by omega
    simp [hz.not_gt, hz, hnat]

/-- **The lexical form of an integer denotes the double read from its digits.** -/
theorem number?_integer (z : Int) :
    (Literal.typed (toString z) Datatype.integer).number? = some (ofInt z) := by
  have hblank : ∀ c ∈ (toString z).toList, Text.isBlank c = false := by
    intro c hc
    rw [toList_toString] at hc
    split at hc
    · rcases List.mem_cons.1 hc with rfl | hc
      · decide
      · exact isBlank_of_isDigit (isDigit_toDigits hc)
    · exact isBlank_of_isDigit (isDigit_toDigits hc)
  have hnumeric : (Literal.typed (toString z) Datatype.integer).isNumeric = true := by
    show Datatype.isNumeric Datatype.integer = true
    decide
  unfold Literal.number?
  rw [if_pos hnumeric]
  show ofText? (Text.trimBlanks (toString z).toList) = some (ofInt z)
  rw [trimBlanks_of_not_isBlank hblank, toList_toString]
  exact ofText?_digits (decide (z < 0)) z.natAbs

/-! ## The order of the texts -/

theorem append_lt_append {xs ys : List Char} (hlength : xs.length = ys.length) (h : xs < ys)
    (us vs : List Char) : xs ++ us < ys ++ vs := by
  induction xs generalizing ys with
  | nil =>
    obtain rfl : ys = [] := List.length_eq_zero_iff.1 hlength.symm
    exact absurd h (List.lt_irrefl _)
  | cons x xs ih =>
    cases ys with
    | nil => cases hlength
    | cons y ys =>
      rw [List.cons_append, List.cons_append, List.cons_lt_cons_iff]
      rcases List.cons_lt_cons_iff.1 h with hlt | ⟨heq, hrest⟩
      · exact .inl hlt
      · exact .inr ⟨heq, ih (Nat.succ.inj hlength) hrest⟩

theorem digitChar_lt {d e : Nat} (h : d < e) (he : e < 10) : Nat.digitChar d < Nat.digitChar e := by
  have hall : ∀ e < 10, ∀ d < e, Nat.digitChar d < Nat.digitChar e := by decide
  exact hall e he d h

/-- Numerals of one length are ordered like the numbers. -/
theorem toDigits_lt_toDigits {m n : Nat} (h : m < n)
    (hlength : (Nat.toDigits 10 m).length = (Nat.toDigits 10 n).length) :
    Nat.toDigits 10 m < Nat.toDigits 10 n := by
  induction n using Nat.strongRecOn generalizing m with
  | ind n ih =>
    have hsmall (k : Nat) : (Nat.toDigits 10 k).length ≤ 1 ↔ k < 10 := by
      simpa using Nat.length_toDigits_le_iff (b := 10) (n := k) (by decide) Nat.one_pos
    have hm := hsmall m
    have hn := hsmall n
    rcases Nat.lt_or_ge n 10 with hlt | hge
    · rw [Nat.toDigits_of_lt_base (by omega), Nat.toDigits_of_lt_base hlt,
        List.cons_lt_cons_iff]
      exact .inl (digitChar_lt h hlt)
    · have hge' : 10 ≤ m := by omega
      rw [Nat.toDigits_of_base_le (by decide) hge', Nat.toDigits_of_base_le (by decide) hge]
        at hlength ⊢
      have hlength' : (Nat.toDigits 10 (m / 10)).length = (Nat.toDigits 10 (n / 10)).length := by
        simpa using hlength
      rcases Nat.lt_or_eq_of_le (Nat.div_le_div_right (c := 10) h.le) with hdiv | hdiv
      · exact append_lt_append hlength' (ih (n / 10) (by omega) hdiv hlength') _ _
      · rw [hdiv]
        refine List.append_left_lt (List.cons_lt_cons_iff.2 (.inl (digitChar_lt ?_ ?_))) <;> omega

/-- The leading digit of a number between two multiples of a power of ten. -/
theorem head?_toDigits {d k n : Nat} (hd : 0 < d ∧ d < 10) (hlow : d * 10 ^ k ≤ n)
    (hhigh : n < (d + 1) * 10 ^ k) : (Nat.toDigits 10 n).head? = some (Nat.digitChar d) := by
  induction k generalizing n with
  | zero =>
    obtain rfl : n = d := by omega
    rw [Nat.toDigits_of_lt_base hd.2]
    rfl
  | succ k ih =>
    have hten : 10 ≤ n := by
      have hpos : 0 < d * 10 ^ k := Nat.mul_pos hd.1 (Nat.pow_pos (by decide))
      have hpow : d * 10 ^ (k + 1) = 10 * (d * 10 ^ k) := by ring
      omega
    have hdiv : d * 10 ^ k ≤ n / 10 ∧ n / 10 < (d + 1) * 10 ^ k := by
      have hpow (e : Nat) : e * 10 ^ (k + 1) = 10 * (e * 10 ^ k) := by ring
      rw [hpow] at hlow hhigh
      omega
    rw [Nat.toDigits_of_base_le (by decide) hten, List.head?_append, ih hdiv.1 hdiv.2]
    rfl

theorem length_toDigits_mono {m n : Nat} (h : m ≤ n) :
    (Nat.toDigits 10 m).length ≤ (Nat.toDigits 10 n).length := by
  have hpos : 0 < (Nat.toDigits 10 n).length := Nat.length_toDigits_pos
  rw [Nat.length_toDigits_le_iff (by decide) hpos]
  exact Nat.lt_of_le_of_lt h ((Nat.length_toDigits_le_iff (by decide) hpos).1 le_rfl)

/-- If two large numbers close together have different numbers of digits, then a power of ten lies
between them: the smaller one begins with a nine and the larger one with a one. -/
theorem toDigits_lt_of_close {m n : Nat} (h : m < n) (hclose : n ≤ m + 2048) (hlarge : 10 ^ 15 ≤ m)
    (hlength : (Nat.toDigits 10 m).length ≠ (Nat.toDigits 10 n).length) :
    Nat.toDigits 10 n < Nat.toDigits 10 m := by
  obtain ⟨k, hk⟩ : ∃ k, (Nat.toDigits 10 m).length = k + 1 :=
    Nat.exists_eq_succ_of_ne_zero Nat.length_toDigits_pos.ne'
  have hmk : m < 10 ^ (k + 1) := (Nat.length_toDigits_le_iff (by decide) (by omega)).1 hk.le
  have hnk : 10 ^ (k + 1) ≤ n := by
    by_contra hlt
    have hle := (Nat.length_toDigits_le_iff (b := 10) (by decide) (by omega)).2
      (Nat.lt_of_not_le hlt)
    have hmono := length_toDigits_mono h.le
    omega
  have hbig : 10 ^ 15 ≤ 10 ^ k := by
    have hexp : 10 ^ 15 < 10 ^ (k + 1) := Nat.lt_of_le_of_lt hlarge hmk
    have hlt : 15 < k + 1 := (Nat.pow_lt_pow_iff_right (by decide)).1 hexp
    exact Nat.pow_le_pow_right (by decide) (by omega)
  rw [Nat.pow_succ] at hmk hnk
  have hnine : (Nat.toDigits 10 m).head? = some '9' :=
    head?_toDigits (d := 9) (k := k) (by decide) (by omega) (by omega)
  have hone : (Nat.toDigits 10 n).head? = some '1' :=
    head?_toDigits (d := 1) (k := k + 1) (by decide) (by rw [Nat.pow_succ]; omega)
      (by rw [Nat.pow_succ]; omega)
  obtain ⟨ms, hms⟩ := List.head?_eq_some_iff.1 hnine
  obtain ⟨ns, hns⟩ := List.head?_eq_some_iff.1 hone
  rw [hms, hns, List.cons_lt_cons_iff]
  exact .inl (by decide)

/-! ## Numbers that fall onto one double -/

/-- Different numbers of 64 bits with one nearest double are large, and close together. -/
theorem close_of_nearestNat_eq {m n : Nat} (h : m < n) (hn : n < 2 ^ 64)
    (heq : nearestNat m = nearestNat n) : n ≤ m + 2048 ∧ 10 ^ 15 ≤ m := by
  have hspacing {k : Nat} (hk : k < 2 ^ 64) : spacing k ≤ 2 ^ 11 := by
    have hlog := log2_lt_of_lt (by decide) hk
    exact Nat.pow_le_pow_right (by decide) (by omega)
  have hsm := hspacing (h.trans hn)
  have hsn := hspacing hn
  have hm := nearestNat_close m
  have hn' := nearestNat_close n
  have hlarge : 2 ^ 53 < n := by
    by_contra hle
    rw [nearestNat_of_le (by omega), nearestNat_of_le (by omega)] at heq
    omega
  omega

theorem compare_of_lt {s t : String} (h : s < t) : compare s t = .lt := by
  show compareOfLessAndEq s t = .lt
  exact if_pos h

theorem length_repr (n : Nat) : n.repr.length = (Nat.toDigits 10 n).length := by
  rw [← String.length_toList, Nat.toList_repr]

theorem repr_lt_iff (m n : Nat) : m.repr < n.repr ↔ Nat.toDigits 10 m < Nat.toDigits 10 n := by
  show m.repr.toList < n.repr.toList ↔ _
  rw [Nat.toList_repr, Nat.toList_repr]

/-- **Numbers that fall onto one double are ordered by their texts as they are themselves if they
have the same number of digits, and the other way round if not.** -/
theorem compare_repr {m n : Nat} (hne : m ≠ n) (hm : m < 2 ^ 64) (hn : n < 2 ^ 64)
    (heq : nearestNat m = nearestNat n) :
    compare m.repr n.repr =
      if m.repr.length = n.repr.length then compare m n else (compare m n).swap := by
  have hlt {m n : Nat} (h : m < n) (hn : n < 2 ^ 64) (heq : nearestNat m = nearestNat n) :
      compare m.repr n.repr = if m.repr.length = n.repr.length then .lt else .gt := by
    rw [length_repr, length_repr]
    split
    · next hlength =>
      exact compare_of_lt ((repr_lt_iff m n).2 (toDigits_lt_toDigits h hlength))
    · next hlength =>
      obtain ⟨hclose, hlarge⟩ := close_of_nearestNat_eq h hn heq
      have hgt := (repr_lt_iff n m).2 (toDigits_lt_of_close h hclose hlarge hlength)
      rw [Std.OrientedOrd.eq_swap (a := m.repr), compare_of_lt hgt]
      rfl
  rcases Nat.lt_or_gt_of_ne hne with h | h
  · rw [hlt h hn heq, Nat.compare_eq_lt.2 h]
    rfl
  · rw [Std.OrientedOrd.eq_swap (a := m.repr), hlt h hm heq.symm, Nat.compare_eq_gt.2 h]
    by_cases hlength : m.repr.length = n.repr.length
    · rw [if_pos hlength, if_pos hlength.symm, Ordering.swap_lt]
    · rw [if_neg hlength, if_neg (Ne.symm hlength)]

end TripleQuery
