import Mathlib.Logic.ExistsUnique
import Mathlib.Tactic.ByContra
import TripleQuery.Expr.Eval

/-!
# Comparison operators and the order by value

The operators `<`, `<=`, `>` and `>=` read the order by value. `=` and `!=` have a test of their
own: numeric literals by value, all other terms by identity. Wherever the order by value is
defined the two agree, with one exception: `"true"` and `"1"` are one truth value, so the order has
them equal, but they are two terms, so `=` has them different (`boolean_spellings_differ`).
`comparisons_follow_order_iff` says that there is no other exception, whatever the lexical forms.
-/

namespace TripleQuery

/-! ## Well-tagged terms -/

/-- A language tag comes with the datatype of tagged strings only. -/
def Literal.WellTagged (l : Literal) : Prop :=
  l.language ≠ none → l.datatype = Datatype.langString

/-- The literal that a term is, if it is one, is well-tagged. -/
def Term.WellTagged : Term → Prop
  | .literal l => l.WellTagged
  | _ => True

theorem Literal.WellTagged.of_typed (lexical datatype : String) :
    (Literal.typed lexical datatype).WellTagged := by
  intro h
  exact absurd rfl h

/-- Two spellings of one truth value. -/
def Literal.Respelled (l r : Literal) : Prop :=
  ∃ x, l.truth? = some x ∧ r.truth? = some x ∧ l ≠ r

/-- Two terms that are literals and spell one truth value differently. -/
def Term.Respelled : Term → Term → Prop
  | .literal l, .literal r => l.Respelled r
  | _, _ => False

namespace Literal

variable {l r : Literal}

theorem datatype_of_isString (hl : l.WellTagged) (h : l.isString = true) :
    l.datatype = if l.language = none then Datatype.string else Datatype.langString := by
  split
  · next hnone => simpa [isString, hnone] using h
  · next hsome => exact hl hsome

theorem not_boolean_of_isString (hl : l.WellTagged) (h : l.isString = true) :
    l.datatype ≠ Datatype.boolean := by
  rw [datatype_of_isString hl h]
  split <;> decide

theorem not_boolean_of_isNumeric (h : l.isNumeric = true) : l.datatype ≠ Datatype.boolean := by
  intro hd
  rw [isNumeric, hd] at h
  revert h
  decide

theorem truth?_of_ne (h : l.datatype ≠ Datatype.boolean) : l.truth? = none := by
  simp [truth?, h]

theorem not_respelled_of_ne (h : l.datatype ≠ Datatype.boolean) : ¬ l.Respelled r := by
  rintro ⟨x, hx, -, -⟩
  rw [truth?_of_ne h] at hx
  cases hx

end Literal

/-! ## The order by value -/

theorem Binary64.compare?_swap (x y : Binary64) :
    y.compare? x = (x.compare? y).map Ordering.swap := by
  unfold Binary64.compare?
  rw [Bool.or_comm]
  split
  · rfl
  · exact congrArg some Std.OrientedOrd.eq_swap

/-- An order of values is one from both sides also where values may be missing. -/
theorem bind_bind_swap {α : Type} {f : α → α → Option Ordering}
    (hf : ∀ x y, f y x = (f x y).map Ordering.swap) (o p : Option α) :
    (p.bind fun y => o.bind fun x => f y x) =
      (o.bind fun x => p.bind fun y => f x y).map Ordering.swap := by
  cases o with
  | none => cases p <;> rfl
  | some x =>
    cases p with
    | none => rfl
    | some y => exact hf x y

theorem Literal.valueOrder?_swap (l r : Literal) :
    r.valueOrder? l = (l.valueOrder? r).map Ordering.swap := by
  unfold Literal.valueOrder?
  rw [Bool.and_comm, Bool.and_comm (x := r.isString), BEq.comm (a := r.language)]
  simp only [and_comm (a := r.datatype = Datatype.boolean),
    eq_comm (a := r.datatype) (b := l.datatype), eq_comm (a := r.language) (b := l.language),
    eq_comm (a := r.lexical) (b := l.lexical)]
  split
  · exact bind_bind_swap Binary64.compare?_swap _ _
  · split
    · exact congrArg some Std.OrientedOrd.eq_swap
    · split
      · have hswap (x y : Bool) : some (compare y x) = (some (compare x y)).map Ordering.swap :=
          congrArg some Std.OrientedOrd.eq_swap
        simpa only [Option.map_eq_bind, Function.comp_def] using bind_bind_swap hswap l.truth? r.truth?
      · split
        · split <;> rfl
        · rfl

/-- **The order by value is the same from both sides.** -/
theorem Term.valueOrder?_swap (a b : Term) :
    b.valueOrder? a = (a.valueOrder? b).map Ordering.swap := by
  cases a with
  | literal l =>
    cases b with
    | literal r => exact l.valueOrder?_swap r
    | _ => rfl
  | _ => cases b <;> rfl

/-- How two well-tagged literals come to be ordered: as numbers, as truth values, or by their texts,
and then they have one datatype and one language tag. -/
theorem Literal.valueOrder?_cases {l r : Literal} (hl : l.WellTagged) (hr : r.WellTagged)
    {o : Ordering} (h : l.valueOrder? r = some o) :
    (l.isNumeric = true ∧ r.isNumeric = true ∧ ∃ x y, l.number? = some x ∧ r.number? = some y ∧
        x.compare? y = some o) ∨
      (∃ x y, l.truth? = some x ∧ r.truth? = some y ∧ compare x y = o) ∨
      (l.isNumeric && r.isNumeric) = false ∧ l.datatype ≠ Datatype.boolean ∧
        l.datatype = r.datatype ∧ l.language = r.language ∧ compare l.lexical r.lexical = o := by
  unfold Literal.valueOrder? at h
  split at h
  case isTrue hnumeric =>
    obtain ⟨hln, hrn⟩ := Bool.and_eq_true_iff.1 hnumeric
    obtain ⟨x, hx, h⟩ := Option.bind_eq_some_iff.1 h
    obtain ⟨y, hy, h⟩ := Option.bind_eq_some_iff.1 h
    exact .inl ⟨hln, hrn, x, y, hx, hy, h⟩
  case isFalse hnumeric =>
    rw [Bool.not_eq_true] at hnumeric
    split at h
    case isTrue hstring =>
      simp only [Bool.and_eq_true, beq_iff_eq] at hstring
      obtain ⟨⟨hls, hrs⟩, hlanguage⟩ := hstring
      -- the tags decide the datatypes
      have hdatatype : l.datatype = r.datatype := by
        rw [datatype_of_isString hl hls, datatype_of_isString hr hrs, hlanguage]
      exact .inr (.inr ⟨hnumeric, not_boolean_of_isString hl hls, hdatatype, hlanguage,
        Option.some.inj h⟩)
    case isFalse =>
      split at h
      case isTrue =>
        obtain ⟨x, hx, h⟩ := Option.bind_eq_some_iff.1 h
        obtain ⟨y, hy, h⟩ := Option.map_eq_some_iff.1 h
        exact .inr (.inl ⟨x, y, hx, hy, h⟩)
      case isFalse hboolean =>
        split at h
        case isTrue hsame =>
          obtain ⟨hdatatype, hlanguage⟩ := hsame
          split at h
          case isTrue hlexical =>
            cases h
            refine .inr (.inr ⟨hnumeric, fun hd => hboolean ⟨hd, hdatatype ▸ hd⟩, hdatatype,
              hlanguage, ?_⟩)
            rw [hlexical, Std.ReflOrd.compare_self]
          case isFalse => cases h
        case isFalse => cases h

/-- Literals of one datatype and one language tag are told apart by their texts. -/
theorem Literal.compare_lexical_eq_iff {l r : Literal} (hdatatype : l.datatype = r.datatype)
    (hlanguage : l.language = r.language) : compare l.lexical r.lexical = .eq ↔ l = r := by
  rw [Std.LawfulEqOrd.compare_eq_iff_eq]
  constructor
  · intro hlexical
    cases l
    cases r
    simp_all
  · rintro rfl
    rfl

/-! ## Equality and the order -/

theorem Literal.equals_of_identity {l r : Literal} (h : (l.isNumeric && r.isNumeric) = false) :
    (Term.literal l).equals (.literal r) = .ok (l == r) := by
  simp [Term.equals, h]

/-- Ordered literals are equal just if the order says so, unless they spell one truth value
differently: then they are not equal although the order has them so. -/
theorem Literal.equals_of_valueOrder? {l r : Literal} (hl : l.WellTagged) (hr : r.WellTagged)
    {o : Ordering} (h : l.valueOrder? r = some o) :
    ¬ l.Respelled r ∧ (Term.literal l).equals (.literal r) = .ok (o == .eq) ∨
      l.Respelled r ∧ o = .eq ∧ (Term.literal l).equals (.literal r) = .ok false := by
  obtain ⟨hln, hrn, x, y, hx, hy, hxy⟩ | ⟨x, y, hx, hy, rfl⟩ |
      ⟨hn, hd, hdatatype, hlanguage, rfl⟩ := valueOrder?_cases hl hr h
  · refine .inl ⟨not_respelled_of_ne (not_boolean_of_isNumeric hln), ?_⟩
    simp [Term.equals, hln, hrn, hx, hy, hxy]
  · have hdatatype := datatype_of_truth? hx
    have hn : (l.isNumeric && r.isNumeric) = false := by
      by_contra hnumeric
      rw [Bool.not_eq_false, Bool.and_eq_true] at hnumeric
      exact not_boolean_of_isNumeric hnumeric.1 hdatatype
    rw [equals_of_identity hn]
    by_cases hxy : x = y
    · subst hxy
      by_cases hlr : l = r
      · refine .inl ⟨fun ⟨_, _, _, hne⟩ => hne hlr, ?_⟩
        simp [hlr]
      · exact .inr ⟨⟨x, hx, hy, hlr⟩, Std.ReflOrd.compare_self, by simp [hlr]⟩
    · -- different truth values, so different literals
      have hlr : l ≠ r := by
        rintro rfl
        exact hxy (Option.some.inj (hx.symm.trans hy))
      refine .inl ⟨?_, ?_⟩
      · rintro ⟨z, hz, hz', -⟩
        exact hxy (Option.some.inj (hx.symm.trans (hz.trans (hz'.symm.trans hy))))
      · have hne : compare x y ≠ .eq := fun heq => hxy (Std.LawfulEqOrd.eq_of_compare heq)
        simp [hlr, hne]
  · refine .inl ⟨not_respelled_of_ne hd, ?_⟩
    rw [equals_of_identity hn]
    congr 1
    exact Bool.eq_iff_iff.2 (by simp [compare_lexical_eq_iff hdatatype hlanguage])

theorem Term.equals_of_valueOrder? {a b : Term} (ha : a.WellTagged) (hb : b.WellTagged)
    {o : Ordering} (h : a.valueOrder? b = some o) :
    ¬ a.Respelled b ∧ a.equals b = .ok (o == .eq) ∨
      a.Respelled b ∧ o = .eq ∧ a.equals b = .ok false := by
  cases a with
  | literal l =>
    cases b with
    | literal r => exact Literal.equals_of_valueOrder? ha hb h
    | _ => cases h
  | _ => cases h

/-! ## The operators -/

namespace Expr

/-- The expression evaluates over the row to the truth value, and tests as it. -/
def Says (row : Binding) (e : Expr) (x : Bool) : Prop :=
  e.evaluate row = .ok (.boolean x) ∧ e.test row = .ok x

theorem truthValue_boolean (x : Bool) : (Term.boolean x).truthValue = .ok x := by
  cases x <;> rfl

theorem boolean_inj {x y : Bool} (h : Term.boolean x = Term.boolean y) : x = y := by
  revert h
  cases x <;> cases y <;> decide

variable {a b : Term} {row : Binding} {l r : Expr}

/-- A comparison says what the operator makes of the values of its operands. -/
theorem says_compare_iff (hl : l.evaluate row = .ok a) (hr : r.evaluate row = .ok b)
    (op : CompareOp) (x : Bool) : Says row (.compare op l r) x ↔ op.apply a b = .ok x := by
  have hvalue : (Expr.compare op l r).evaluate row = (op.apply a b).map .boolean := by
    simp [evaluate, hl, hr]
  unfold Says test
  rw [hvalue]
  cases hop : op.apply a b with
  | error e => simp [Except.map]
  | ok y =>
    constructor
    · rintro ⟨h, -⟩
      rw [boolean_inj (Except.ok.inj h)]
    · intro h
      cases h
      exact ⟨rfl, truthValue_boolean x⟩

theorem Says.unique {e : Expr} {x y : Bool} (hx : Says row e x) (hy : Says row e y) : x = y :=
  Except.ok.inj (hx.2.symm.trans hy.2)

theorem apply_of_valueOrder? {o : Ordering} (h : a.valueOrder? b = some o) {op : CompareOp}
    (heq : op ≠ .eq) (hne : op ≠ .ne) : op.apply a b = .ok (op.holds o) := by
  cases op with
  | eq => exact absurd rfl heq
  | ne => exact absurd rfl hne
  | _ => simp [CompareOp.apply, h]

/-- Terms that are not one truth value in two spellings are compared by their order. -/
theorem apply_of_spelled (ha : a.WellTagged) (hb : b.WellTagged) {o : Ordering}
    (ho : a.valueOrder? b = some o) (hspelled : ¬ a.Respelled b) (op : CompareOp) :
    op.apply a b = .ok (op.holds o) := by
  obtain ⟨-, hequals⟩ | ⟨hrespelled, -⟩ := Term.equals_of_valueOrder? ha hb ho
  · cases op with
    | eq => exact hequals
    | ne =>
      show (a.equals b).map (!·) = _
      rw [hequals]
      rfl
    | _ => exact apply_of_valueOrder? ho (by decide) (by decide)
  · exact absurd hrespelled hspelled

/-- The comparisons of two expressions are those of an order: equality says whether the order is
that of equals and inequality the opposite, one of less, equal and greater holds, and "at most" is
"less or equal". -/
structure ComparesAs (row : Binding) (l r : Expr) (o : Ordering) : Prop where
  eq : Says row (.compare .eq l r) (o == .eq)
  ne : Says row (.compare .ne l r) (!(o == .eq))
  one : ∃! op, op ∈ [CompareOp.lt, .eq, .gt] ∧ Says row (.compare op l r) true
  le : Says row (.compare .le l r) true ↔
    Says row (.compare .lt l r) true ∨ Says row (.compare .eq l r) true

theorem comparesAs_of_holds {o : Ordering}
    (h : ∀ op, Says row (.compare op l r) (op.holds o)) : ComparesAs row l r o := by
  have hverdict (op : CompareOp) : Says row (.compare op l r) true ↔ op.holds o = true :=
    ⟨fun ht => (h op).unique ht, fun hx => hx ▸ h op⟩
  refine ⟨h .eq, h .ne, ?one, ?le⟩
  case one =>
    simp only [hverdict]
    cases o with
    | lt => exact ⟨.lt, by decide, by simp +decide⟩
    | eq => exact ⟨.eq, by decide, by simp +decide⟩
    | gt => exact ⟨.gt, by decide, by simp +decide⟩
  case le =>
    rw [hverdict, hverdict, hverdict]
    cases o <;> simp [CompareOp.holds]

/-- **Where the order by value is defined, the comparison operators follow it, but for booleans in
two spellings.** The order is the same from both sides, and `<`, `<=`, `>` and `>=` are read off
it. `=` and `!=` are opposites, and two terms that are equal are so in the order. All comparisons
are those of the order just if the two terms do not spell one truth value differently; two that do
are equal in the order and yet different. -/
theorem comparisons_follow_order_iff (ha : a.WellTagged) (hb : b.WellTagged) {o : Ordering}
    (ho : a.valueOrder? b = some o) (hl : l.evaluate row = .ok a) (hr : r.evaluate row = .ok b) :
    b.valueOrder? a = some o.swap ∧
      (∀ op, op ≠ .eq → op ≠ .ne → Says row (.compare op l r) (op.holds o)) ∧
      (∃ x, Says row (.compare .eq l r) x ∧ Says row (.compare .ne l r) (!x) ∧
        (x = true → o = .eq)) ∧
      (ComparesAs row l r o ↔ ¬ a.Respelled b) ∧
      (a.Respelled b → o = .eq ∧ Says row (.compare .eq l r) false) := by
  have hverdict {op : CompareOp} {x : Bool} : op.apply a b = .ok x → Says row (.compare op l r) x :=
    (says_compare_iff hl hr op x).2
  refine ⟨by rw [Term.valueOrder?_swap, ho]; rfl,
    fun op heq hne => hverdict (apply_of_valueOrder? ho heq hne), ?_⟩
  by_cases hspelled : a.Respelled b
  · obtain ⟨h, -⟩ | ⟨-, rfl, hequals⟩ := Term.equals_of_valueOrder? ha hb ho
    · exact absurd hspelled h
    · have heq : Says row (.compare .eq l r) false := hverdict hequals
      have hne : Says row (.compare .ne l r) true := hverdict (by
        show (a.equals b).map (!·) = .ok true
        rw [hequals]
        rfl)
      -- the order has them equal, so following it `=` would have to say true
      exact ⟨⟨false, heq, hne, by simp⟩, ⟨fun h => (nomatch heq.unique h.eq),
        fun h => absurd hspelled h⟩, fun _ => ⟨rfl, heq⟩⟩
  · have hall (op : CompareOp) : Says row (.compare op l r) (op.holds o) :=
      hverdict (apply_of_spelled ha hb ho hspelled op)
    exact ⟨⟨_, hall .eq, hall .ne, by simp [CompareOp.holds]⟩,
      ⟨fun _ => hspelled, fun _ => comparesAs_of_holds hall⟩, fun h => absurd h hspelled⟩

namespace Instance

/-- The number one as an integer, with a leading zero and blanks around it. -/
def padded : Term := .literal (.typed " 01 " Datatype.integer)

/-- The number one as a double. -/
def scaled : Term := .literal (.typed "1e0" Datatype.double)

/-- Truth as a word. -/
def word : Term := .literal (.typed "true" Datatype.boolean)

/-- Truth as a digit. -/
def digit : Term := .literal (.typed "1" Datatype.boolean)

end Instance

open Instance in
theorem comparisons_follow_order_iff_padded :
    padded.WellTagged ∧ scaled.WellTagged ∧ padded.valueOrder? scaled = some .eq ∧
      ComparesAs (.single ⟨"x"⟩ padded) (.var ⟨"x"⟩) (.const scaled) .eq := by
  have hpadded : padded.WellTagged := .of_typed _ _
  have hscaled : scaled.WellTagged := .of_typed _ _
  have ho : padded.valueOrder? scaled = some .eq := by decide
  have hvar : (Expr.var ⟨"x"⟩).evaluate (.single ⟨"x"⟩ padded) = .ok padded := rfl
  have hspelled : ¬ padded.Respelled scaled := Literal.not_respelled_of_ne (by decide)
  exact ⟨hpadded, hscaled, ho,
    (comparisons_follow_order_iff hpadded hscaled ho hvar rfl).2.2.2.1.2 hspelled⟩

open Instance in
/-- The two spellings of truth are equal in the order by value, and `=` has them different. So
neither is less than the other nor equal to it, and yet each is at most the other. -/
theorem boolean_spellings_differ :
    word.WellTagged ∧ digit.WellTagged ∧ word.valueOrder? digit = some .eq ∧
      Says .empty (.compare .eq (.const word) (.const digit)) false ∧
      Says .empty (.compare .ne (.const word) (.const digit)) true ∧
      Says .empty (.compare .lt (.const word) (.const digit)) false ∧
      Says .empty (.compare .gt (.const word) (.const digit)) false ∧
      Says .empty (.compare .le (.const word) (.const digit)) true ∧
      ¬ ComparesAs .empty (.const word) (.const digit) .eq := by
  refine ⟨.of_typed _ _, .of_typed _ _, by decide, ⟨rfl, rfl⟩, ⟨rfl, rfl⟩, ⟨rfl, rfl⟩, ⟨rfl, rfl⟩,
    ⟨rfl, rfl⟩, fun h => ?_⟩
  have heq : Says .empty (.compare .eq (.const word) (.const digit)) false := ⟨rfl, rfl⟩
  cases heq.unique h.eq

end Expr

end TripleQuery
