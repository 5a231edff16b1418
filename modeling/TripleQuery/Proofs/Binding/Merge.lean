import Mathlib.Tactic.Push
import TripleQuery.Binding.Basic

/-!
# Merging as the union of partial maps

A binding is a partial map, and merging two of them is the union of the maps where they agree.
`union?` forgets which conflict made a merge fail; what is left is a commutative and associative
partial operation with the empty binding as its unit (`union?_comm`, `union?_bind_assoc`), and
`extend` is the union with a single entry (`union?_single`).
-/

namespace TripleQuery.Binding

/-! ## Agreement -/

/-- Two bindings have the same term for every variable that both bind. -/
def Agree (a b : Binding) : Prop :=
  ∀ v x y, a.get? v = some x → b.get? v = some y → x = y

theorem Agree.symm {a b : Binding} (h : a.Agree b) : b.Agree a :=
  fun v x y hx hy => (h v y x hy hx).symm

/-- The second binding has at least the entries of the first. -/
def Extends (a b : Binding) : Prop := ∀ v x, a.get? v = some x → b.get? v = some x

theorem Extends.refl (a : Binding) : a.Extends a := fun _ _ h => h

theorem Extends.trans {a b c : Binding} (hab : a.Extends b) (hbc : b.Extends c) : a.Extends c :=
  fun v x h => hbc v x (hab v x h)

theorem Agree.of_extends {a b c : Binding} (h : a.Agree c) (hb : b.Extends c) : a.Agree b :=
  fun v x y hx hy => h v x y hx (hb v y hy)

/-! ## Adding entries -/

theorem extend_of_agree {b : Binding} {v : Variable} {t : Term}
    (h : ∀ u, b.get? v = some u → u = t) : b.extend v t = .ok (b.insert v t) := by
  unfold extend
  cases hv : b.get? v with
  | none => rfl
  | some u =>
    obtain rfl := h u hv
    have hb : b.insert v u = b := ext_get? fun w => by
      rw [get?_insert]
      by_cases hw : w = v
      · rw [if_pos hw, hw, hv]
      · rw [if_neg hw]
    simp [hb]

theorem extend_of_conflict {b : Binding} {v : Variable} {t u : Term} (h : b.get? v = some u)
    (hne : u ≠ t) : b.extend v t = .error ⟨v, u, t⟩ := by
  simp [extend, h, hne]

/-- Entries put into a binding one after the other. -/
def insertAll (b : Binding) (entries : List (Variable × Term)) : Binding :=
  entries.foldl (fun b e => b.insert e.1 e.2) b

theorem find_head_eq_none {v : Variable} {t : Term} {rest : List (Variable × Term)}
    (h : EntriesOrdered ((v, t) :: rest)) : find v rest = none :=
  find_eq_none (List.pairwise_cons.1 h).1

theorem get?_insertAll {entries : List (Variable × Term)} (h : EntriesOrdered entries)
    (b : Binding) (w : Variable) :
    (b.insertAll entries).get? w = (find w entries).or (b.get? w) := by
  induction entries generalizing b with
  | nil => rfl
  | cons e rest ih =>
    obtain ⟨v, t⟩ := e
    have hrest : EntriesOrdered rest := (List.pairwise_cons.1 h).2
    have hstep : (b.insertAll ((v, t) :: rest)).get? w = (find w rest).or ((b.insert v t).get? w) :=
      ih hrest (b.insert v t)
    rw [hstep, get?_insert]
    by_cases hw : w = v
    · subst hw
      simp [find, find_head_eq_none h]
    · simp [find, hw]

theorem extendAll_of_agree {entries : List (Variable × Term)} (h : EntriesOrdered entries)
    {b : Binding} (ha : ∀ v t u, find v entries = some t → b.get? v = some u → u = t) :
    b.extendAll entries = .ok (b.insertAll entries) := by
  induction entries generalizing b with
  | nil => rfl
  | cons e rest ih =>
    obtain ⟨v, t⟩ := e
    have hv : b.extend v t = .ok (b.insert v t) :=
      extend_of_agree fun u hu => ha v t u (by simp [find]) hu
    have hrest : (b.insert v t).extendAll rest = .ok ((b.insert v t).insertAll rest) := by
      refine ih (List.pairwise_cons.1 h).2 fun w s u hw hu => ?_
      by_cases hwv : w = v
      · rw [hwv, find_head_eq_none h] at hw
        cases hw
      · rw [get?_insert, if_neg hwv] at hu
        exact ha w s u (by simp [find, hwv, hw]) hu
    rw [extendAll, hv]
    exact hrest

theorem extendAll_of_conflict {entries : List (Variable × Term)} (h : EntriesOrdered entries)
    {b : Binding} {v : Variable} {t u : Term} (hv : find v entries = some t)
    (hu : b.get? v = some u) (hne : u ≠ t) : ∃ c, b.extendAll entries = .error c := by
  induction entries generalizing b with
  | nil => cases hv
  | cons e rest ih =>
    obtain ⟨w, s⟩ := e
    rw [extendAll]
    cases hw : b.extend w s with
    | error c => exact ⟨c, rfl⟩
    | ok m =>
      show ∃ c, m.extendAll rest = .error c
      by_cases hvw : v = w
      · subst hvw
        obtain rfl : s = t := by simpa [find] using hv
        rw [extend_of_conflict hu hne] at hw
        cases hw
      · have hm : m.get? v = some u := by
          by_cases hs : ∀ x, b.get? w = some x → x = s
          · rw [extend_of_agree hs] at hw
            cases hw
            rw [get?_insert, if_neg hvw, hu]
          · push Not at hs
            obtain ⟨x, hx, hxs⟩ := hs
            rw [extend_of_conflict hx hxs] at hw
            cases hw
        exact ih (List.pairwise_cons.1 h).2 (by simpa [find, hvw] using hv) hm

/-! ## Merging -/

/-- The union of two rows, if they agree on the variables they share. -/
def union? (a b : Binding) : Option Binding := (a.merge b).toOption

theorem extendAll_entries_of_agree {a b : Binding} (h : a.Agree b) :
    ∃ m, b.extendAll a.entries = .ok m ∧ ∀ v, m.get? v = (a.get? v).or (b.get? v) :=
  ⟨_, extendAll_of_agree a.ordered fun v t u ht hu => (h v t u ht hu).symm,
    get?_insertAll a.ordered b⟩

theorem or_get?_comm {a b : Binding} (h : a.Agree b) (v : Variable) :
    (a.get? v).or (b.get? v) = (b.get? v).or (a.get? v) := by
  cases ha : a.get? v with
  | none => simp
  | some x =>
    cases hb : b.get? v with
    | none => simp
    | some y => simp [h v x y ha hb]

theorem merge_of_agree {a b : Binding} (h : a.Agree b) :
    ∃ m, a.merge b = .ok m ∧ ∀ v, m.get? v = (a.get? v).or (b.get? v) := by
  unfold merge bySize
  by_cases hsize : a.size ≤ b.size
  · simp only [if_pos hsize]
    exact extendAll_entries_of_agree h
  · simp only [if_neg hsize]
    obtain ⟨m, hm, hget⟩ := extendAll_entries_of_agree h.symm
    exact ⟨m, hm, fun v => (hget v).trans (or_get?_comm h v).symm⟩

theorem merge_of_not_agree {a b : Binding} (h : ¬ a.Agree b) : ∃ c, a.merge b = .error c := by
  unfold Agree at h
  push Not at h
  obtain ⟨v, x, y, hx, hy, hne⟩ := h
  unfold merge bySize
  by_cases hsize : a.size ≤ b.size
  · simp only [if_pos hsize]
    exact extendAll_of_conflict a.ordered hx hy (Ne.symm hne)
  · simp only [if_neg hsize]
    exact extendAll_of_conflict b.ordered hy hx hne

/-- **Merging is the union of partial maps**, defined where the maps agree. -/
theorem union?_eq_some_iff {a b m : Binding} :
    a.union? b = some m ↔ a.Agree b ∧ ∀ v, m.get? v = (a.get? v).or (b.get? v) := by
  by_cases h : a.Agree b
  · obtain ⟨n, hn, hget⟩ := merge_of_agree h
    have hu : a.union? b = some n := by rw [union?, hn]; rfl
    rw [hu, Option.some.injEq]
    constructor
    · rintro rfl
      exact ⟨h, hget⟩
    · rintro ⟨-, hm⟩
      exact ext_get? fun v => (hget v).trans (hm v).symm
  · obtain ⟨c, hc⟩ := merge_of_not_agree h
    have hu : a.union? b = none := by rw [union?, hc]; rfl
    simp [hu, h]

theorem union?_eq_none_iff {a b : Binding} : a.union? b = none ↔ ¬ a.Agree b := by
  constructor
  · intro hn ha
    obtain ⟨m, hm, hget⟩ := merge_of_agree ha
    rw [union?, hm] at hn
    cases hn
  · intro h
    obtain ⟨c, hc⟩ := merge_of_not_agree h
    rw [union?, hc]
    rfl

theorem agree_of_union? {a b m : Binding} (h : a.union? b = some m) : a.Agree b :=
  (union?_eq_some_iff.1 h).1

theorem get?_union? {a b m : Binding} (h : a.union? b = some m) (v : Variable) :
    m.get? v = (a.get? v).or (b.get? v) :=
  (union?_eq_some_iff.1 h).2 v

theorem extends_left_of_union? {a b m : Binding} (h : a.union? b = some m) : a.Extends m := by
  intro v x hx
  rw [get?_union? h, hx, Option.some_or]

theorem union?_comm (a b : Binding) : a.union? b = b.union? a := by
  refine Option.ext fun m => ?_
  rw [union?_eq_some_iff, union?_eq_some_iff]
  constructor
  · rintro ⟨h, hm⟩
    exact ⟨h.symm, fun v => (hm v).trans (or_get?_comm h v)⟩
  · rintro ⟨h, hm⟩
    exact ⟨h.symm, fun v => (hm v).trans (or_get?_comm h v)⟩

theorem extends_right_of_union? {a b m : Binding} (h : a.union? b = some m) : b.Extends m :=
  extends_left_of_union? (union?_comm a b ▸ h)

@[simp] theorem empty_union? (b : Binding) : empty.union? b = some b := by
  refine union?_eq_some_iff.2 ⟨fun v x y hx _ => ?_, fun v => ?_⟩
  · rw [get?_empty] at hx
    cases hx
  · rw [get?_empty, Option.none_or]

@[simp] theorem union?_empty (b : Binding) : b.union? empty = some b := by
  rw [union?_comm, empty_union?]

/-- The union with a binding that is already there changes nothing. -/
theorem union?_of_extends {a b : Binding} (h : a.Extends b) : a.union? b = some b := by
  refine union?_eq_some_iff.2 ⟨fun v x y hx hy => ?_, fun v => ?_⟩
  · rw [h v x hx] at hy
    exact Option.some.inj hy
  · cases hv : a.get? v with
    | none => rw [Option.none_or]
    | some x => rw [h v x hv, Option.some_or]

/-- Whether three bindings have a union, and which, does not depend on where one starts. -/
theorem union?_bind_assoc (a b c : Binding) :
    ((a.union? b).bind fun m => m.union? c) = (b.union? c).bind a.union? := by
  refine Option.ext fun n => ?_
  simp only [Option.bind_eq_some_iff]
  constructor
  · rintro ⟨m, hm, hn⟩
    have hbc : b.Agree c := ((agree_of_union? hn).symm.of_extends
      (extends_right_of_union? hm)).symm
    obtain ⟨k, hk⟩ : ∃ k, b.union? c = some k :=
      Option.ne_none_iff_exists'.1 fun h => union?_eq_none_iff.1 h hbc
    refine ⟨k, hk, union?_eq_some_iff.2 ⟨fun v x y hx hy => ?_, fun v => ?_⟩⟩
    · rw [get?_union? hk] at hy
      cases hb : b.get? v with
      | none =>
        rw [hb, Option.none_or] at hy
        exact agree_of_union? hn v x y (extends_left_of_union? hm v x hx) hy
      | some z =>
        rw [hb, Option.some_or] at hy
        exact agree_of_union? hm v x y hx (hb.trans hy)
    · rw [get?_union? hn, get?_union? hm, get?_union? hk, Option.or_assoc]
  · rintro ⟨k, hk, hn⟩
    have hab : a.Agree b := (agree_of_union? hn).of_extends (extends_left_of_union? hk)
    obtain ⟨m, hm⟩ : ∃ m, a.union? b = some m :=
      Option.ne_none_iff_exists'.1 fun h => union?_eq_none_iff.1 h hab
    refine ⟨m, hm, union?_eq_some_iff.2 ⟨fun v x y hx hy => ?_, fun v => ?_⟩⟩
    · rw [get?_union? hm] at hx
      cases ha : a.get? v with
      | none =>
        rw [ha, Option.none_or] at hx
        exact agree_of_union? hk v x y hx hy
      | some z =>
        rw [ha, Option.some_or] at hx
        exact agree_of_union? hn v x y (ha.trans hx) (extends_right_of_union? hk v y hy)
    · rw [get?_union? hn, get?_union? hm, get?_union? hk, Option.or_assoc]

/-- Extending a binding is its union with one entry. -/
theorem union?_single (b : Binding) (v : Variable) (t : Term) :
    b.union? (single v t) = (b.extend v t).toOption := by
  have hget : ∀ w, (single v t).get? w = if w = v then some t else none := fun w => by
    rw [single, get?_insert, get?_empty]
  by_cases h : ∀ u, b.get? v = some u → u = t
  · rw [extend_of_agree h]
    refine union?_eq_some_iff.2 ⟨fun w x y hx hy => ?_, fun w => ?_⟩
    · rw [hget] at hy
      split at hy
      · next hw =>
        cases hy
        exact h x (hw ▸ hx)
      · cases hy
    · rw [get?_insert, hget]
      by_cases hw : w = v
      · subst hw
        rw [if_pos rfl]
        cases hb : b.get? w with
        | none => rw [Option.none_or, if_pos rfl]
        | some u => rw [h u hb, Option.some_or]
      · rw [if_neg hw, if_neg hw, Option.or_none]
  · push Not at h
    obtain ⟨u, hu, hne⟩ := h
    rw [extend_of_conflict hu hne]
    exact union?_eq_none_iff.2 fun ha => hne (ha v u t hu (by rw [hget, if_pos rfl]))

end TripleQuery.Binding
