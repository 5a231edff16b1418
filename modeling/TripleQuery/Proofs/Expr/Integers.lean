import TripleQuery.Proofs.Expr.Comparison
import TripleQuery.Proofs.Term.Digits

/-!
# Integers compare as doubles

Integers are compared through the doubles that their digits denote. Two integers of 64 bits are
therefore compared by their nearest doubles (`valueOrder?_integer`): never the wrong way round, and
exactly as far as the doubles tell them apart, which they do up to `2 ^ 53`. A sort goes on to the
texts when the doubles are equal (`sortOrder_integer`), and the texts get it right for nonnegative
integers with the same number of digits, and wrong for negative ones.

`integers_compare_as_doubles` says for which pairs each of the two orders is that of the integers,
and `large_integers_confused` has pairs for which it is not.
-/

namespace TripleQuery

open Binary64

/-! ## Nearest doubles -/

theorem nearest_neg_iff (z : Int) : nearest z < 0 ↔ z < 0 := by
  rcases lt_or_ge z 0 with h | h
  · have hpos := nearestNat_pos (Int.natAbs_ne_zero.2 h.ne)
    rw [nearest_of_neg h]
    omega
  · rw [nearest_of_nonneg h]
    omega

theorem nearestNat_eq_of_nearest_eq {a b : Int} (h : nearest a = nearest b) :
    (a < 0 ↔ b < 0) ∧ nearestNat a.natAbs = nearestNat b.natAbs := by
  have hsign : a < 0 ↔ b < 0 := by rw [← nearest_neg_iff a, ← nearest_neg_iff b, h]
  refine ⟨hsign, ?_⟩
  rcases lt_or_ge a 0 with ha | ha
  · rw [nearest_of_neg ha, nearest_of_neg (hsign.1 ha)] at h
    omega
  · rw [nearest_of_nonneg ha, nearest_of_nonneg (by omega)] at h
    omega

theorem compare_nearest {a b : Int} (h : nearest a ≠ nearest b) :
    compare (nearest a) (nearest b) = compare a b := by
  have hne : a ≠ b := fun heq => h (congrArg nearest heq)
  have hle := nearest_mono (a := a) (b := b)
  have hge := nearest_mono (a := b) (b := a)
  refine compare_congr ?_ ?_ <;> omega

/-! ## Texts -/

theorem toString_of_nonneg {z : Int} (h : 0 ≤ z) : toString z = z.natAbs.repr := by
  have hnat : z.toNat = z.natAbs := by omega
  rw [Int.toString_eq_repr, Int.repr_eq_if, if_pos h, hnat]

theorem toString_of_neg {z : Int} (h : z < 0) : toString z = "-" ++ z.natAbs.repr := by
  have hnat : (-z).toNat = z.natAbs := by omega
  rw [Int.toString_eq_repr, Int.repr_eq_if, if_neg (by omega), hnat]

theorem compare_minus (s t : String) : compare ("-" ++ s) ("-" ++ t) = compare s t := by
  have hlt : "-" ++ s < "-" ++ t ↔ s < t := by
    show ("-" ++ s).toList < ("-" ++ t).toList ↔ s.toList < t.toList
    simp [String.toList_append]
  have heq : "-" ++ s = "-" ++ t ↔ s = t := by simp
  show compareOfLessAndEq _ _ = compareOfLessAndEq _ _
  unfold compareOfLessAndEq
  rw [if_congr hlt rfl (if_congr heq rfl rfl)]

theorem compare_natAbs {a b : Int} (h : a < 0 ↔ b < 0) :
    compare a.natAbs b.natAbs = if a < 0 then (compare a b).swap else compare a b := by
  simp only [compare, compareOfLessAndEq]
  split_ifs <;> first | rfl | omega

theorem swap_compare_ne {a b : Int} (hne : a ≠ b) : (compare a b).swap ≠ compare a b := by
  simp only [compare, compareOfLessAndEq]
  split_ifs <;> decide

/-- **The texts of two integers that fall onto one double** are in the order of the integers if
these are nonnegative with the same number of digits, or negative with different numbers of
them. -/
theorem compare_toString_iff {a b : Int} (hne : a ≠ b) (ha : a.natAbs < 2 ^ 64)
    (hb : b.natAbs < 2 ^ 64) (h : nearest a = nearest b) :
    compare (toString a) (toString b) = compare a b ↔
      (0 ≤ a ↔ (toString a).length = (toString b).length) := by
  obtain ⟨hsign, hnearest⟩ := nearestNat_eq_of_nearest_eq h
  have hswap : (compare a b).swap ≠ compare a b := swap_compare_ne hne
  have hrepr := compare_repr (m := a.natAbs) (n := b.natAbs) (by omega) ha hb hnearest
  rw [compare_natAbs hsign] at hrepr
  rcases lt_or_ge a 0 with hneg | hnonneg
  · have hneg' : b < 0 := hsign.1 hneg
    have hlength : (toString a).length = (toString b).length ↔
        a.natAbs.repr.length = b.natAbs.repr.length := by
      simp [toString_of_neg hneg, toString_of_neg hneg']
    rw [hlength, toString_of_neg hneg, toString_of_neg hneg', compare_minus, hrepr, if_pos hneg,
      Ordering.swap_swap]
    split
    · next heq => simp [heq, hswap, hneg]
    · next hdiff => simp [hdiff, hneg]
  · have hnonneg' : 0 ≤ b := by omega
    rw [toString_of_nonneg hnonneg, toString_of_nonneg hnonneg', hrepr, if_neg hnonneg.not_gt]
    split
    · next heq => simp [heq, hnonneg]
    · next hdiff => simp [hdiff, hswap, hnonneg]

/-! ## The two orders -/

namespace Literal

variable {l r : Literal} {x y : Binary64} (hl : l.number? = some x) (hr : r.number? = some y)
include hl hr

theorem valueOrder?_of_number? : l.valueOrder? r = x.compare? y := by
  simp [valueOrder?, isNumeric_of_number? hl, isNumeric_of_number? hr, hl, hr]

theorem sortOrder_of_number? : l.sortOrder r = (x.totalCompare y).then
    ((compare l.datatype r.datatype).then
      ((compare l.lexical r.lexical).then (compare l.language r.language))) := by
  simp [sortOrder, sortClass, denotedOrder, hl, hr]

end Literal

section Orders

variable {a b : Int} (ha : a.natAbs.log2 < 1023) (hb : b.natAbs.log2 < 1023)
include ha hb

/-- **The order by value of two integers is that of their nearest doubles.** -/
theorem valueOrder?_integer :
    (Term.integer a).valueOrder? (.integer b) = some (compare (nearest a) (nearest b)) :=
  (Literal.valueOrder?_of_number? (number?_integer a) (number?_integer b)).trans
    (compare?_ofInt ha hb)

/-- **The sort order of two integers is that of their nearest doubles, then of their texts.** -/
theorem sortOrder_integer :
    sortOrder (some (.integer a)) (some (.integer b)) =
      (compare (nearest a) (nearest b)).then (compare (toString a) (toString b)) := by
  have horder := Literal.sortOrder_of_number? (number?_integer a) (number?_integer b)
  rw [totalCompare_ofInt ha hb] at horder
  refine horder.trans ?_
  simp [Literal.typed]

/-- The order by value is that of the integers unless two different ones fall onto one double. -/
theorem valueOrder?_integer_iff :
    (Term.integer a).valueOrder? (.integer b) = some (compare a b) ↔
      (nearest a = nearest b → a = b) := by
  rw [valueOrder?_integer ha hb, Option.some.injEq]
  by_cases h : nearest a = nearest b
  · rw [h, Std.ReflOrd.compare_self, eq_comm, Std.LawfulEqOrd.compare_eq_iff_eq]
    exact ⟨fun hab _ => hab, fun hab => hab rfl⟩
  · exact ⟨fun _ heq => absurd heq h, fun _ => compare_nearest h⟩

/-- The sort order is that of the integers unless two different ones fall onto one double and their
texts are not in it. -/
theorem sortOrder_integer_iff (ha' : a.natAbs < 2 ^ 64) (hb' : b.natAbs < 2 ^ 64) :
    sortOrder (some (.integer a)) (some (.integer b)) = compare a b ↔
      (nearest a = nearest b → a ≠ b →
        (0 ≤ a ↔ (toString a).length = (toString b).length)) := by
  rw [sortOrder_integer ha hb]
  by_cases hab : a = b
  · subst hab
    simp [Std.ReflOrd.compare_self]
  · by_cases h : nearest a = nearest b
    · rw [h, Std.ReflOrd.compare_self, Ordering.eq_then, compare_toString_iff hab ha' hb' h]
      exact ⟨fun hiff _ _ => hiff, fun hall => hall rfl hab⟩
    · have hne : compare a b ≠ .eq := fun heq => hab (Std.LawfulEqOrd.eq_of_compare heq)
      rw [compare_nearest h]
      refine ⟨fun _ heq => absurd heq h, fun _ => ?_⟩
      cases hc : compare a b with
      | eq => exact absurd hc hne
      | _ => rfl

end Orders

theorem Term.wellTagged_integer (z : Int) : (Term.integer z).WellTagged :=
  Literal.WellTagged.of_typed _ _

theorem Term.not_respelled_integer (z : Int) (t : Term) : ¬ (Term.integer z).Respelled t := by
  have hdatatype : Datatype.integer ≠ Datatype.boolean := by decide
  cases t with
  | literal r => exact Literal.not_respelled_of_ne hdatatype
  | _ => exact id

/-- Integers of 64 bits are far from the largest double. -/
theorem natAbs_toInt_lt (a : Int64) : a.toInt.natAbs < 2 ^ 64 ∧ a.toInt.natAbs.log2 < 1023 := by
  have hlow := a.le_toInt
  have hhigh := a.toInt_lt
  have hnat : a.toInt.natAbs < 2 ^ 64 := by omega
  exact ⟨hnat, (log2_lt_of_lt (by decide) hnat).trans (by decide)⟩

/-- **Integers compare as their nearest doubles do.** All six comparison operators follow the order
of the doubles, which never has two integers the wrong way round; it is the order of the integers
unless two different ones have the same nearest double, and then it has them equal. A sort tells
these apart by their texts, and that is the order of the integers just if they are nonnegative with
the same number of digits, or negative with different numbers of them. Up to `2 ^ 53` both orders
are those of the integers. -/
theorem Term.integers_compare_as_doubles (a b : Int64) :
    (Term.integer a.toInt).valueOrder? (.integer b.toInt) =
        some (compare (nearest a.toInt) (nearest b.toInt)) ∧
      (∀ row l r, l.evaluate row = .ok (.integer a.toInt) →
        r.evaluate row = .ok (.integer b.toInt) → ∀ op : CompareOp,
          Expr.Says row (.compare op l r)
            (op.holds (compare (nearest a.toInt) (nearest b.toInt)))) ∧
      (a ≤ b → (Term.integer a.toInt).valueOrder? (.integer b.toInt) ≠ some .gt) ∧
      ((Term.integer a.toInt).valueOrder? (.integer b.toInt) = some (compare a.toInt b.toInt) ↔
        (nearest a.toInt = nearest b.toInt → a = b)) ∧
      (TripleQuery.sortOrder (some (.integer a.toInt)) (some (.integer b.toInt)) =
          compare a.toInt b.toInt ↔
        (nearest a.toInt = nearest b.toInt → a ≠ b →
          (0 ≤ a ↔ (toString a.toInt).length = (toString b.toInt).length))) ∧
      (a.toInt.natAbs ≤ 2 ^ 53 → b.toInt.natAbs ≤ 2 ^ 53 →
        (Term.integer a.toInt).valueOrder? (.integer b.toInt) =
            some (compare a.toInt b.toInt) ∧
          TripleQuery.sortOrder (some (.integer a.toInt)) (some (.integer b.toInt)) =
            compare a.toInt b.toInt) := by
  obtain ⟨ha, hlogA⟩ := natAbs_toInt_lt a
  obtain ⟨hb, hlogB⟩ := natAbs_toInt_lt b
  have hvalue := valueOrder?_integer hlogA hlogB
  have hvalueIff := valueOrder?_integer_iff hlogA hlogB
  have hsortIff := sortOrder_integer_iff hlogA hlogB ha hb
  rw [Int64.toInt_inj] at hvalueIff
  rw [ne_eq, Int64.toInt_inj, ← Int64.toInt_zero, ← Int64.le_iff_toInt_le] at hsortIff
  refine ⟨hvalue, ?operators, ?never, hvalueIff, hsortIff, ?exact⟩
  case operators =>
    intro row l r hl hr op
    exact (Expr.says_compare_iff hl hr op _).2 (Expr.apply_of_spelled (wellTagged_integer _)
      (wellTagged_integer _) hvalue (not_respelled_integer _ _) op)
  case never =>
    intro hle hgt
    rw [hvalue, Option.some.injEq, Int.compare_eq_gt] at hgt
    have hmono := nearest_mono (Int64.le_iff_toInt_le.1 hle)
    omega
  case exact =>
    intro hsmallA hsmallB
    have hinj (h : nearest a.toInt = nearest b.toInt) : a = b := by
      rwa [nearest_of_natAbs_le hsmallA, nearest_of_natAbs_le hsmallB, Int64.toInt_inj] at h
    exact ⟨hvalueIff.2 hinj, hsortIff.2 fun h hne => absurd (hinj h) hne⟩

theorem Term.integers_compare_as_doubles_adjacent :
    let a : Int64 := 9007199254740991
    let b : Int64 := 9007199254740992
    a ≤ b ∧ a.toInt.natAbs ≤ 2 ^ 53 ∧ b.toInt.natAbs ≤ 2 ^ 53 ∧
      (Term.integer a.toInt).valueOrder? (.integer b.toInt) = some .lt ∧
      TripleQuery.sortOrder (some (.integer a.toInt)) (some (.integer b.toInt)) = .lt ∧
      Expr.Says .empty (.compare .lt (.const (.integer a.toInt)) (.const (.integer b.toInt)))
        true := by
  intro a b
  have hsmallA : a.toInt.natAbs ≤ 2 ^ 53 := by decide
  have hsmallB : b.toInt.natAbs ≤ 2 ^ 53 := by decide
  obtain ⟨-, hoperators, -, -, -, hexact⟩ := integers_compare_as_doubles a b
  obtain ⟨hvalue, hsort⟩ := hexact hsmallA hsmallB
  have hless := hoperators .empty (.const _) (.const _) rfl rfl .lt
  have hcompare : compare a.toInt b.toInt = .lt := by decide
  have hnearest : compare (nearest a.toInt) (nearest b.toInt) = .lt := by decide
  rw [hcompare] at hvalue hsort
  rw [hnearest] at hless
  exact ⟨by decide, hsmallA, hsmallB, hvalue, hsort, hless⟩

/-- `2 ^ 53` and the next integer are equal in the order by value, and `=` says so too. A sort puts
`10 ^ 16 - 1` after `10 ^ 16`: both have the nearest double `10 ^ 16`, and the text of the first is
the greater one. -/
theorem Term.large_integers_confused :
    let a : Int64 := 9007199254740992
    let b : Int64 := 9999999999999999
    let next (z : Int64) : Term := .integer (z + 1).toInt
    (Term.integer a.toInt).valueOrder? (next a) = some .eq ∧
      Expr.Says .empty (.compare .eq (.const (.integer a.toInt)) (.const (next a))) true ∧
      TripleQuery.sortOrder (some (.integer b.toInt)) (some (next b)) = .gt ∧
      (¬ ∀ a b : Int64, (Term.integer a.toInt).valueOrder? (.integer b.toInt) =
        some (compare a.toInt b.toInt)) ∧
      ¬ ∀ a b : Int64, TripleQuery.sortOrder (some (.integer a.toInt)) (some (.integer b.toInt)) =
        compare a.toInt b.toInt := by
  intro a b next
  have hvalue : (Term.integer a.toInt).valueOrder? (next a) = some .eq := by decide
  have hsort : TripleQuery.sortOrder (some (.integer b.toInt)) (some (next b)) = .gt := by decide
  have hequal := Expr.apply_of_spelled (wellTagged_integer _) (wellTagged_integer _) hvalue
    (not_respelled_integer _ _) .eq
  refine ⟨hvalue, (Expr.says_compare_iff rfl rfl .eq _).2 hequal, hsort, fun h => ?_, fun h => ?_⟩
  · exact absurd (hvalue.symm.trans (h a (a + 1))) (by decide)
  · exact absurd (hsort.symm.trans (h b (b + 1))) (by decide)

end TripleQuery
