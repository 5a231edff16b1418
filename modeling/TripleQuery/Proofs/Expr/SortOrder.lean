import TripleQuery.Codec.Data
import TripleQuery.Proofs.Expr.Integers

/-!
# How far the sort order is an order

The sort order turns around with its arguments and has only identical terms equal, but it is not
transitive. The truth values of two literals are compared whenever both have one, also where both
are strings because they carry a language tag; a third such literal without a truth value is
compared by its text. The texts put `"1"` before `"false"` and the truth values put it behind, so a
text in between closes a circle (`sort_order_circle`). `sort_order_total_but_for_circles` says that
these are all the circles there are. Well-tagged terms are in none.

`settledOrder` is the total order behind it, where a literal that is sorted as a string is compared
as a string. The two orders differ on the pairs that `Crossed` names and on no others.
-/

namespace TripleQuery

/-- Where two ends agree in the first order, so does all that lies between them, and the second
order decides. -/
theorem compareLex_between {α : Type} {f g : α → α → Ordering} [Std.TransCmp f] {x y z : α}
    (hxz : f x z = .eq) (hxy : (compareLex f g x y).isLE) (hyz : (compareLex f g y z).isLE) :
    f x y = .eq ∧ f y z = .eq ∧ (g x y).isLE ∧ (g y z).isLE := by
  have hlexy := Ordering.isLE_left_of_isLE_then hxy
  have hleyz := Ordering.isLE_left_of_isLE_then hyz
  have heqxy : f x y = .eq := by
    have hzx : f z x = .eq := Std.OrientedCmp.eq_symm hxz
    have hlezx : (f z x).isLE := by simp [hzx]
    exact Std.OrientedCmp.isLE_antisymm hlexy (Std.TransCmp.isLE_trans hleyz hlezx)
  have heqyz : f y z = .eq := Std.TransCmp.eq_trans (Std.OrientedCmp.eq_symm heqxy) hxz
  rw [compareLex, heqxy] at hxy
  rw [compareLex, heqyz] at hyz
  exact ⟨heqxy, heqyz, hxy, hyz⟩

namespace Literal

/-! ## The order part by part -/

/-- The truth value of a literal that is sorted by it. -/
def sortedTruth? (l : Literal) : Option Bool := if l.sortClass = .boolean then l.truth? else none

/-- Literals by datatype, lexical form and language tag. -/
def writtenOrder : Literal → Literal → Ordering :=
  compareLex (compareOn (·.datatype)) (compareLex (compareOn (·.lexical)) (compareOn (·.language)))

instance : Std.TransCmp writtenOrder :=
  inferInstanceAs (Std.TransCmp (compareLex (compareOn Literal.datatype)
    (compareLex (compareOn Literal.lexical) (compareOn Literal.language))))

/-- Literals by sort class, by number and truth value, and then by what is written. -/
def settledOrder : Literal → Literal → Ordering :=
  compareLex (compareOn (·.sortClass.rank))
    (compareLex (compareOn fun l => l.number?.map Binary64.rank)
      (compareLex (compareOn sortedTruth?) writtenOrder))

instance : Std.TransCmp settledOrder :=
  inferInstanceAs (Std.TransCmp (compareLex (compareOn fun l : Literal => l.sortClass.rank)
    (compareLex (compareOn fun l : Literal => l.number?.map Binary64.rank)
      (compareLex (compareOn sortedTruth?) writtenOrder))))

theorem sortOrder_eq (a b : Literal) :
    a.sortOrder b = (compare a.sortClass.rank b.sortClass.rank).then
      ((denotedOrder a b).then (a.writtenOrder b)) := rfl

theorem SortClass.rank_inj {c d : SortClass} (h : c.rank = d.rank) : c = d := by
  cases c <;> cases d <;> first | rfl | cases h

/-- What the sort class of a literal says about its values. -/
theorem sortClass_spec (l : Literal) :
    match l.sortClass with
    | .number => (∃ x, l.number? = some x) ∧ l.truth? = none
    | .string => l.number? = none ∧ l.isString = true
    | .boolean => l.number? = none ∧ l.isString = false ∧ ∃ x, l.truth? = some x
    | .other => l.number? = none ∧ l.isString = false ∧ l.truth? = none := by
  unfold sortClass
  cases hn : l.number? with
  | some x => exact ⟨⟨x, rfl⟩, truth?_of_ne (not_boolean_of_isNumeric (isNumeric_of_number? hn))⟩
  | none =>
    cases hs : l.isString with
    | true => simp
    | false => cases l.truth? <;> simp

/-! ## Strings that denote truth values -/

/-- A literal with a language tag and the datatype of truth values. -/
def Hybrid (l : Literal) : Prop := l.datatype = Datatype.boolean ∧ l.language ≠ none

theorem WellTagged.not_hybrid {l : Literal} (h : l.WellTagged) : ¬ l.Hybrid := by
  rintro ⟨hdatatype, hlanguage⟩
  rw [h hlanguage] at hdatatype
  revert hdatatype
  decide

theorem hybrid_iff {l : Literal} :
    l.Hybrid ↔ l.sortClass = .string ∧ l.datatype = Datatype.boolean := by
  have hstring : Datatype.boolean ≠ Datatype.string := by decide
  have hnumeric : Datatype.isNumeric Datatype.boolean = false := by decide
  unfold Hybrid
  rw [and_comm]
  refine and_congr_left fun hd => ?_
  have hn : l.number? = none := by simp [number?, isNumeric, hd, hnumeric]
  simp only [sortClass, hn, isString, hd]
  cases l.language <;> simp [hstring]
  split <;> simp

/-- The first literal spells truth by a digit and the second falsehood by a word, both under a
tag. -/
structure Crossed (a b : Literal) : Prop where
  left : a.Hybrid
  right : b.Hybrid
  digit : a.lexical = "1"
  word : b.lexical = "false"

variable {a b c : Literal}

theorem truth?_of_digit (hd : a.datatype = Datatype.boolean) (h : a.lexical = "1") :
    a.truth? = some true := by
  simp [truth?, hd, h]

theorem truth?_of_word (hd : a.datatype = Datatype.boolean) (h : a.lexical = "false") :
    a.truth? = some false := by
  simp [truth?, hd, h]

/-- The spellings of the truth values. -/
theorem lexical_of_truth? {x : Bool} (h : a.truth? = some x) :
    a.lexical ∈ if x then ["true", "1"] else ["false", "0"] := by
  rw [truth?, if_pos (datatype_of_truth? h)] at h
  split at h
  · next hl =>
    cases h
    simpa using hl
  · split at h
    · next hl =>
      cases h
      simpa using hl
    · cases h

/-- Texts of different truth values are in the order of these, unless they are crossed. -/
theorem compare_spellings {x y : Bool} {s t : String} (hxy : x ≠ y)
    (hs : s ∈ if x then ["true", "1"] else ["false", "0"])
    (ht : t ∈ if y then ["true", "1"] else ["false", "0"])
    (hst : ¬ (s = "1" ∧ t = "false")) (hts : ¬ (t = "1" ∧ s = "false")) :
    compare s t = compare x y := by
  revert hst hts
  cases x <;> cases y <;> simp only [List.mem_cons, List.not_mem_nil, or_false, if_true, if_false,
    Bool.false_eq_true, ne_eq, not_true_eq_false] at hxy hs ht <;>
    rcases hs with rfl | rfl <;> rcases ht with rfl | rfl <;> decide

theorem Hybrid.spec (h : a.Hybrid) :
    a.sortClass = .string ∧ a.number? = none ∧ a.datatype = Datatype.boolean := by
  obtain ⟨hclass, hdatatype⟩ := hybrid_iff.1 h
  have hspec := a.sortClass_spec
  rw [hclass] at hspec
  exact ⟨hclass, hspec.1, hdatatype⟩

theorem Hybrid.settledOrder_eq (ha : a.Hybrid) (hb : b.Hybrid) :
    a.settledOrder b = (compare a.lexical b.lexical).then (compare a.language b.language) := by
  obtain ⟨hclassA, hnumberA, hdatatypeA⟩ := ha.spec
  obtain ⟨hclassB, hnumberB, hdatatypeB⟩ := hb.spec
  simp [settledOrder, writtenOrder, compareLex, compareOn, sortedTruth?, hclassA, hclassB, hnumberA,
    hnumberB, hdatatypeA, hdatatypeB]

theorem sortOrder_of_crossed (h : a.Crossed b) : a.sortOrder b = .gt := by
  obtain ⟨hclassA, hnumberA, hdatatypeA⟩ := h.left.spec
  obtain ⟨hclassB, hnumberB, hdatatypeB⟩ := h.right.spec
  have htruth : compare true false = .gt := by decide
  simp [sortOrder, denotedOrder, hclassA, hclassB, hnumberA, hnumberB,
    truth?_of_digit hdatatypeA h.digit, truth?_of_word hdatatypeB h.word, htruth]

/-- Truth values that strings denote do not matter to their order, unless they are crossed. -/
theorem denotedOrder_then_of_string (ha : a.sortClass = .string) (hb : b.sortClass = .string)
    (hab : ¬ a.Crossed b) (hba : ¬ b.Crossed a) :
    (denotedOrder a b).then (a.writtenOrder b) = a.writtenOrder b := by
  have hspec := a.sortClass_spec
  rw [ha] at hspec
  unfold denotedOrder
  simp only [hspec.1]
  cases hx : a.truth? with
  | none => rfl
  | some x =>
    cases hy : b.truth? with
    | none => rfl
    | some y =>
      show (compare x y).then _ = _
      by_cases hxy : x = y
      · rw [hxy, Std.ReflOrd.compare_self, Ordering.eq_then]
      · -- the datatypes are one and the texts are in the order of the truth values
        have hda := datatype_of_truth? hx
        have hdb := datatype_of_truth? hy
        have hhybridA : a.Hybrid := hybrid_iff.2 ⟨ha, hda⟩
        have hhybridB : b.Hybrid := hybrid_iff.2 ⟨hb, hdb⟩
        have hspelled : compare a.lexical b.lexical = compare x y :=
          compare_spellings hxy (lexical_of_truth? hx) (lexical_of_truth? hy)
            (fun hc => hab ⟨hhybridA, hhybridB, hc.1, hc.2⟩)
            (fun hc => hba ⟨hhybridB, hhybridA, hc.1, hc.2⟩)
        have hwritten : a.writtenOrder b =
            (compare x y).then (compare a.language b.language) := by
          simp only [writtenOrder, compareLex, compareOn, hda, hdb, hspelled,
            Std.ReflOrd.compare_self, Ordering.eq_then]
        rw [hwritten]
        cases compare x y <;> rfl

/-- Only crossed literals are not in the settled order. -/
theorem sortOrder_eq_settledOrder (hab : ¬ a.Crossed b) (hba : ¬ b.Crossed a) :
    a.sortOrder b = a.settledOrder b := by
  rw [sortOrder_eq]
  unfold settledOrder
  simp only [compareLex, compareOn]
  by_cases hclass : a.sortClass = b.sortClass
  case neg =>
    -- the classes decide both
    have hrank : compare a.sortClass.rank b.sortClass.rank ≠ .eq := fun h =>
      hclass (SortClass.rank_inj (Std.LawfulEqOrd.eq_of_compare h))
    cases h : compare a.sortClass.rank b.sortClass.rank with
    | eq => exact absurd h hrank
    | _ => rfl
  congr 1
  have hspecA := a.sortClass_spec
  have hspecB := b.sortClass_spec
  rw [← hclass] at hspecB
  unfold sortedTruth?
  rw [← hclass]
  cases h : a.sortClass with
  | number =>
    rw [h] at hspecA hspecB
    obtain ⟨⟨x, hx⟩, -⟩ := hspecA
    obtain ⟨⟨y, hy⟩, -⟩ := hspecB
    simp [denotedOrder, hx, hy]
    rfl
  | boolean =>
    rw [h] at hspecA hspecB
    obtain ⟨hna, -, x, hx⟩ := hspecA
    obtain ⟨hnb, -, y, hy⟩ := hspecB
    simp [denotedOrder, hna, hnb, hx, hy]
    rfl
  | other =>
    rw [h] at hspecA hspecB
    simp [denotedOrder, hspecA.1, hspecB.1, hspecA.2.2]
  | string =>
    rw [denotedOrder_then_of_string h (hclass ▸ h) hab hba]
    rw [h] at hspecA hspecB
    simp [hspecA.1, hspecB.1]

/-! ## Laws on literals -/

theorem denotedOrder_swap (a b : Literal) : denotedOrder a b = (denotedOrder b a).swap := by
  unfold denotedOrder
  cases a.number? with
  | none =>
    cases b.number? <;> cases a.truth? <;> cases b.truth? <;>
      first | rfl | exact Std.OrientedOrd.eq_swap
  | some x =>
    cases b.number? with
    | none =>
      cases a.truth? <;> cases b.truth? <;> first | rfl | exact Std.OrientedOrd.eq_swap
    | some y => exact Std.OrientedOrd.eq_swap

theorem sortOrder_swap (a b : Literal) : a.sortOrder b = (b.sortOrder a).swap := by
  unfold sortOrder
  simp only [Ordering.swap_then, ← denotedOrder_swap, ← Std.OrientedOrd.eq_swap]

theorem sortOrder_eq_iff {a b : Literal} : a.sortOrder b = .eq ↔ a = b := by
  constructor
  · intro h
    simp only [sortOrder, Ordering.then_eq_eq] at h
    obtain ⟨-, -, hdatatype, hlexical, hlanguage⟩ := h
    cases a
    cases b
    cases Std.LawfulEqOrd.eq_of_compare hdatatype
    cases Std.LawfulEqOrd.eq_of_compare hlexical
    cases Std.LawfulEqOrd.eq_of_compare hlanguage
    rfl
  · rintro rfl
    have h := sortOrder_swap a a
    cases ho : a.sortOrder a <;> rw [ho] at h <;> first | rfl | cases h

/-! ## Circles of literals -/

theorem Hybrid.of_between (ha : a.Hybrid) (hc : c.Hybrid) (hab : (a.settledOrder b).isLE)
    (hbc : (b.settledOrder c).isLE) : b.Hybrid := by
  obtain ⟨hclassA, hnumberA, hdatatypeA⟩ := ha.spec
  obtain ⟨hclassC, hnumberC, hdatatypeC⟩ := hc.spec
  obtain ⟨hclass, -, hab, hbc⟩ := compareLex_between
    (by simp [compareOn, hclassA, hclassC]) hab hbc
  obtain ⟨-, -, hab, hbc⟩ := compareLex_between
    (by simp [compareOn, hnumberA, hnumberC]) hab hbc
  obtain ⟨-, -, hab, hbc⟩ := compareLex_between
    (by simp [compareOn, sortedTruth?, hclassA, hclassC]) hab hbc
  obtain ⟨hdatatype, -, -, -⟩ := compareLex_between
    (by simp [compareOn, hdatatypeA, hdatatypeC]) hab hbc
  have hclassB := SortClass.rank_inj (Std.LawfulEqOrd.eq_of_compare hclass)
  have hdatatypeB := Std.LawfulEqOrd.eq_of_compare hdatatype
  exact hybrid_iff.2 ⟨hclassB.symm.trans hclassA, hdatatypeB.symm.trans hdatatypeA⟩

/-- Three tagged literals with the datatype of truth values. The first is truth as a digit, the
last falsehood as a word, and the text of the other one is in between. -/
structure Circle (a b c : Literal) : Prop where
  first : a.Hybrid
  middle : b.Hybrid
  last : c.Hybrid
  digit : a.lexical = "1"
  above : "1" < b.lexical
  below : b.lexical < "false"
  word : c.lexical = "false"

theorem lt_of_compare_isLE {s t : String} (h : (compare s t).isLE) (hne : s ≠ t) : s < t := by
  refine compareOfLessAndEq_eq_lt.1 ?_
  cases hst : compare s t with
  | lt => exact hst
  | eq => exact absurd (Std.LawfulEqOrd.eq_of_compare hst) hne
  | gt => simp [hst] at h

theorem not_crossed_of_word (h : a.lexical = "false") : ¬ a.Crossed b := by
  intro hab
  exact absurd (hab.digit.symm.trans h) (by decide)

theorem not_crossed_of_digit (h : b.lexical = "1") : ¬ a.Crossed b := by
  intro hab
  exact absurd (h.symm.trans hab.word) (by decide)

theorem not_crossed_of_lt (h : a.sortOrder b = .lt) : ¬ a.Crossed b := by
  intro hab
  rw [sortOrder_of_crossed hab] at h
  cases h

/-- What lies between crossed literals closes a circle with them. -/
theorem Crossed.circle (hac : a.Crossed c) (hab : a.sortOrder b = .lt)
    (hbc : b.sortOrder c = .lt) : Circle a b c := by
  have hnab : ¬ a.Crossed b := not_crossed_of_lt hab
  have hnbc : ¬ b.Crossed c := not_crossed_of_lt hbc
  rw [sortOrder_eq_settledOrder hnab (not_crossed_of_digit hac.digit)] at hab
  rw [sortOrder_eq_settledOrder hnbc (not_crossed_of_word hac.word)] at hbc
  have hleab : (a.settledOrder b).isLE := by simp [hab]
  have hlebc : (b.settledOrder c).isLE := by simp [hbc]
  have hmiddle : b.Hybrid := .of_between hac.left hac.right hleab hlebc
  rw [hac.left.settledOrder_eq hmiddle, hac.digit] at hleab
  rw [hmiddle.settledOrder_eq hac.right, hac.word] at hlebc
  refine ⟨hac.left, hmiddle, hac.right, hac.digit, ?above, ?below, hac.word⟩
  case above =>
    refine lt_of_compare_isLE (Ordering.isLE_left_of_isLE_then hleab) fun h => ?_
    exact hnbc ⟨hmiddle, hac.right, h.symm, hac.word⟩
  case below =>
    refine lt_of_compare_isLE (Ordering.isLE_left_of_isLE_then hlebc) fun h => ?_
    exact hnab ⟨hac.left, hmiddle, hac.digit, h⟩

theorem Circle.crossed (h : Circle a b c) : a.Crossed c :=
  ⟨h.first, h.last, h.digit, h.word⟩

theorem Hybrid.sortOrder_of_lt (ha : a.Hybrid) (hb : b.Hybrid) (h : a.lexical < b.lexical)
    (hab : ¬ a.Crossed b) (hba : ¬ b.Crossed a) : a.sortOrder b = .lt := by
  have hlt : compare a.lexical b.lexical = .lt := compareOfLessAndEq_eq_lt.2 h
  rw [sortOrder_eq_settledOrder hab hba, ha.settledOrder_eq hb, hlt]
  rfl

theorem Circle.lt (h : Circle a b c) :
    a.sortOrder b = .lt ∧ b.sortOrder c = .lt ∧ c.sortOrder a = .lt := by
  refine ⟨h.first.sortOrder_of_lt h.middle (h.digit ▸ h.above) ?_ (not_crossed_of_digit h.digit),
    h.middle.sortOrder_of_lt h.last (h.word ▸ h.below) ?_ (not_crossed_of_word h.word), ?_⟩
  · intro hab
    exact (String.lt_irrefl _ (hab.word ▸ h.below))
  · intro hbc
    exact (String.lt_irrefl _ (hbc.digit ▸ h.above))
  · rw [sortOrder_swap, sortOrder_of_crossed h.crossed]
    rfl

/-- **A sort runs in a circle around crossed literals only.** -/
theorem sortOrder_circle_iff (a b c : Literal) :
    (a.sortOrder b = .lt ∧ b.sortOrder c = .lt ∧ c.sortOrder a = .lt) ↔
      Circle a b c ∨ Circle b c a ∨ Circle c a b := by
  constructor
  · rintro ⟨hab, hbc, hca⟩
    by_cases hac : a.Crossed c
    · exact .inl (hac.circle hab hbc)
    by_cases hba : b.Crossed a
    · exact .inr (.inl (hba.circle hbc hca))
    by_cases hcb : c.Crossed b
    · exact .inr (.inr (hcb.circle hca hab))
    -- otherwise the circle is one of the settled order
    exfalso
    rw [sortOrder_eq_settledOrder (not_crossed_of_lt hab) hba] at hab
    rw [sortOrder_eq_settledOrder (not_crossed_of_lt hbc) hcb] at hbc
    rw [sortOrder_eq_settledOrder (not_crossed_of_lt hca) hac] at hca
    have haa : a.settledOrder a = .lt := Std.TransCmp.lt_trans (Std.TransCmp.lt_trans hab hbc) hca
    exact nomatch haa.symm.trans Std.ReflCmp.compare_self
  · rintro (h | h | h)
    · exact h.lt
    · exact ⟨h.lt.2.2, h.lt.1, h.lt.2.1⟩
    · exact ⟨h.lt.2.1, h.lt.2.2, h.lt.1⟩

end Literal

/-! ## Laws on terms -/

theorem Term.sortOrder_swap (a b : Term) : a.sortOrder b = (b.sortOrder a).swap := by
  have hstring (x y : String) : (compare y x).swap = compare x y := Std.OrientedOrd.eq_swap.symm
  cases a <;> cases b <;>
    simp only [Term.sortOrder, Term.order, hstring, ← Literal.sortOrder_swap, Ordering.swap_lt,
      Ordering.swap_gt]

theorem Term.sortOrder_eq_iff {a b : Term} : a.sortOrder b = .eq ↔ a = b := by
  cases a <;> cases b <;> simp [Term.sortOrder, Term.order, Literal.sortOrder_eq_iff]

/-- The sort order turns around with its arguments. -/
theorem sortOrder_swap (a b : Option Term) : sortOrder a b = (sortOrder b a).swap := by
  cases a with
  | none => cases b <;> rfl
  | some s =>
    cases b with
    | none => rfl
    | some t => exact s.sortOrder_swap t

/-- Only identical terms are equal in the sort order. -/
theorem sortOrder_eq_iff {a b : Option Term} : sortOrder a b = .eq ↔ a = b := by
  cases a with
  | none => cases b <;> simp [sortOrder]
  | some s =>
    cases b with
    | none => simp [sortOrder]
    | some t => rw [Option.some.injEq]; exact Term.sortOrder_eq_iff

/-- Three literals that make up a circle, wherever it starts. -/
def Circular : Option Term → Option Term → Option Term → Prop
  | some (.literal a), some (.literal b), some (.literal c) =>
    Literal.Circle a b c ∨ Literal.Circle b c a ∨ Literal.Circle c a b
  | _, _, _ => False

theorem Term.sortOrder_circle_iff (a b c : Term) :
    (a.sortOrder b = .lt ∧ b.sortOrder c = .lt ∧ c.sortOrder a = .lt) ↔
      Circular (some a) (some b) (some c) := by
  have hstring (x y z : String) :
      (compare x y = .lt ∧ compare y z = .lt ∧ compare z x = .lt) ↔ False := by
    refine ⟨fun ⟨hxy, hyz, hzx⟩ => ?_, False.elim⟩
    have hxx := Std.TransCmp.lt_trans (Std.TransCmp.lt_trans hxy hyz) hzx
    simp at hxx
  -- literals, texts of one kind, or two kinds
  cases a <;> cases b <;> cases c <;> simp only [Term.sortOrder, Term.order, Circular, hstring,
    Literal.sortOrder_circle_iff, reduceCtorEq, false_and, and_false]

theorem sortOrder_circle_iff (a b c : Option Term) :
    (sortOrder a b = .lt ∧ sortOrder b c = .lt ∧ sortOrder c a = .lt) ↔ Circular a b c := by
  cases a with
  | some s =>
    cases b with
    | some t =>
      cases c with
      | some u => exact Term.sortOrder_circle_iff s t u
      | none => simp [sortOrder, Circular]
    | none => cases c <;> simp [sortOrder, Circular]
  | none => cases b <;> cases c <;> simp [sortOrder, Circular]

theorem sortOrder_lt_of_isLE {a b : Option Term} (h : (sortOrder a b).isLE) (hne : a ≠ b) :
    sortOrder a b = .lt := by
  have hneq : sortOrder a b ≠ .eq := fun heq => hne (sortOrder_eq_iff.1 heq)
  cases hab : sortOrder a b with
  | lt => rfl
  | eq => exact absurd hab hneq
  | gt => simp [hab] at h

theorem sortOrder_trans_iff (a b c : Option Term) :
    ((sortOrder a b).isLE → (sortOrder b c).isLE → (sortOrder a c).isLE) ↔ ¬ Circular a b c := by
  rw [← sortOrder_circle_iff]
  constructor
  · rintro htrans ⟨hab, hbc, hca⟩
    have hac := htrans (by simp [hab]) (by simp [hbc])
    rw [sortOrder_swap, hca] at hac
    cases hac
  · intro hcircle hab hbc
    rw [Ordering.isLE_iff_ne_gt]
    intro hac
    have hca : sortOrder c a = .lt := by
      rw [sortOrder_swap, hac]
      rfl
    -- equal terms are one, and then the circle has two terms only
    have hne : a ≠ b ∧ b ≠ c := by
      constructor
      · rintro rfl
        simp [hac] at hbc
      · rintro rfl
        simp [hac] at hab
    exact hcircle ⟨sortOrder_lt_of_isLE hab hne.1, sortOrder_lt_of_isLE hbc hne.2, hca⟩

/-- **The sort order turns around with its arguments, only identical terms are equal in it, and it
is transitive but for circles.** Three optional terms break transitivity just if they are literals
with language tags and the datatype of truth values, one of them is truth as a digit and another
one falsehood as a word, and the text of the third is in between. -/
theorem sort_order_total_but_for_circles (a b c : Option Term) :
    sortOrder a b = (sortOrder b a).swap ∧ (sortOrder a b = .eq ↔ a = b) ∧
      (((sortOrder a b).isLE → (sortOrder b c).isLE → (sortOrder a c).isLE) ↔
        ¬ Circular a b c) :=
  ⟨sortOrder_swap a b, sortOrder_eq_iff, sortOrder_trans_iff a b c⟩

namespace Expr.Instance

/-- A text in English with the datatype of truth values. -/
def tagged (text : String) : Term := .literal ⟨text, Datatype.boolean, some "en"⟩

end Expr.Instance

open Expr.Instance in
/-- Terms that can be read from outside are sorted in a circle: truth as a digit before a text
that is no truth value, that before falsehood as a word, and falsehood before truth. -/
theorem sort_order_circle :
    (∀ text ∈ ["1", "a", "false"], Term.ofJson? (tagged text).toJson = some (tagged text)) ∧
      sortOrder (some (tagged "1")) (some (tagged "a")) = .lt ∧
      sortOrder (some (tagged "a")) (some (tagged "false")) = .lt ∧
      sortOrder (some (tagged "1")) (some (tagged "false")) = .gt ∧
      ¬ ∀ a b c, (sortOrder a b).isLE → (sortOrder b c).isLE → (sortOrder a c).isLE := by
  refine ⟨by decide, by decide, by decide, by decide, fun htrans => ?_⟩
  have hle : (sortOrder (some (tagged "1")) (some (tagged "false"))).isLE :=
    htrans _ (some (tagged "a")) _ (by decide) (by decide)
  revert hle
  decide

/-! ## Well-tagged terms -/

/-- The value is well-tagged, if there is one. -/
def TaggedValue (v : Option Term) : Prop := ∀ t, v = some t → t.WellTagged

theorem not_circular_of_tagged {a b c : Option Term} (ha : TaggedValue a) :
    ¬ Circular a b c := by
  intro h
  unfold Circular at h
  split at h
  · have htagged : Literal.WellTagged _ := ha _ rfl
    obtain h | h | h := h
    · exact htagged.not_hybrid h.first
    · exact htagged.not_hybrid h.last
    · exact htagged.not_hybrid h.middle
  · exact h

theorem sortOrder_trans {a b c : Option Term} (ha : TaggedValue a) (hab : (sortOrder a b).isLE)
    (hbc : (sortOrder b c).isLE) : (sortOrder a c).isLE :=
  (sortOrder_trans_iff a b c).2 (not_circular_of_tagged ha) hab hbc

/-! ## Agreement with the order by value -/

namespace Literal

variable {l r : Literal}

theorem sortOrder_of_truth? (hl : l.WellTagged) (hr : r.WellTagged) {x y : Bool}
    (hx : l.truth? = some x) (hy : r.truth? = some y) (hxy : compare x y = .lt) :
    l.sortOrder r = .lt := by
  have hclass {m : Literal} {z : Bool} (hm : m.WellTagged) (hz : m.truth? = some z) :
      m.number? = none ∧ m.sortClass = .boolean := by
    have hdatatype := datatype_of_truth? hz
    have hstring : m.isString = false := by
      rw [← Bool.not_eq_true]
      exact fun hs => not_boolean_of_isString hm hs hdatatype
    have hnumber : m.number? = none := by
      rw [Option.eq_none_iff_forall_ne_some]
      exact fun w hw => not_boolean_of_isNumeric (isNumeric_of_number? hw) hdatatype
    exact ⟨hnumber, by simp [sortClass, hnumber, hstring, hz]⟩
  obtain ⟨hnl, hcl⟩ := hclass hl hx
  obtain ⟨hnr, hcr⟩ := hclass hr hy
  simp [sortOrder, denotedOrder, hcl, hcr, hnl, hnr, hx, hy, hxy]

theorem sortOrder_of_lexical (hn : (l.isNumeric && r.isNumeric) = false)
    (hboolean : l.datatype ≠ Datatype.boolean) (hdatatype : l.datatype = r.datatype)
    (hlanguage : l.language = r.language) :
    l.sortOrder r = (compare l.lexical r.lexical).then .eq := by
  have hnumeric : l.isNumeric = r.isNumeric := by simp [isNumeric, hdatatype]
  have hnl : l.isNumeric = false := by simpa [hnumeric] using hn
  have hnr : r.isNumeric = false := hnumeric ▸ hnl
  have hstring : l.isString = r.isString := by simp [isString, hdatatype, hlanguage]
  have htl := truth?_of_ne hboolean
  have htr := truth?_of_ne (hdatatype ▸ hboolean)
  simp [sortOrder, denotedOrder, sortClass, number?, hnl, hnr, hstring, htl, htr, hdatatype,
    hlanguage]

/-- What is less by value is sorted before. -/
theorem sortOrder_of_valueOrder? (hl : l.WellTagged) (hr : r.WellTagged)
    (h : l.valueOrder? r = some .lt) : l.sortOrder r = .lt := by
  obtain ⟨-, -, x, y, hx, hy, hxy⟩ | ⟨x, y, hx, hy, hxy⟩ | ⟨hn, hd, hdatatype, hlanguage, ho⟩ :=
    valueOrder?_cases hl hr h
  · have hlt : x.value < y.value := by
      unfold Binary64.compare? at hxy
      split at hxy
      · cases hxy
      · exact Int.compare_eq_lt.1 (Option.some.inj hxy)
    have hrank : x.totalCompare y = .lt :=
      Int.compare_eq_lt.2 (Binary64.rank_lt_of_value_lt hlt)
    rw [sortOrder_of_number? hx hy, hrank]
    rfl
  · exact sortOrder_of_truth? hl hr hx hy hxy
  · rw [sortOrder_of_lexical hn hd hdatatype hlanguage, ho]
    rfl

end Literal

/-- **Terms in order by value are sorted that way.** -/
theorem Term.sortOrder_of_valueOrder? {a b : Term} (ha : a.WellTagged) (hb : b.WellTagged)
    (h : a.valueOrder? b = some .lt) : TripleQuery.sortOrder (some a) (some b) = .lt := by
  cases a with
  | literal l =>
    cases b with
    | literal r => exact Literal.sortOrder_of_valueOrder? ha hb h
    | _ => cases h
  | _ => cases h

end TripleQuery
