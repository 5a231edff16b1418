import TripleQuery.Proofs.Binding.Merge

/-!
# Where a merge fails

Two bindings clash at a variable that they bind to different terms. `isCompatible` decides whether
they clash anywhere, and a merge that fails reports the first clash in name order
(`merge_eq_error`), whichever of the two is the larger and so receives the entries of the other.
With the laws of `union?` this makes the bindings a commutative partial monoid, failures included:
`merge_partial_union`.
-/

namespace TripleQuery.Binding

/-! ## Clashes -/

/-- Both bindings bind the variable, and not to one term. -/
def ClashAt (a b : Binding) (v : Variable) : Prop :=
  ∃ x y, a.get? v = some x ∧ b.get? v = some y ∧ x ≠ y

/-- The variable is the least in name order at which the bindings clash. -/
def FirstClash (a b : Binding) (v : Variable) : Prop :=
  a.ClashAt b v ∧ ∀ w, a.ClashAt b w → v.name ≤ w.name

theorem ClashAt.symm {a b : Binding} {v : Variable} (h : a.ClashAt b v) : b.ClashAt a v := by
  obtain ⟨x, y, hx, hy, hne⟩ := h
  exact ⟨y, x, hy, hx, hne.symm⟩

theorem FirstClash.symm {a b : Binding} {v : Variable} (h : a.FirstClash b v) :
    b.FirstClash a v :=
  ⟨h.1.symm, fun w hw => h.2 w hw.symm⟩

theorem FirstClash.unique {a b : Binding} {v w : Variable} (hv : a.FirstClash b v)
    (hw : a.FirstClash b w) : v = w :=
  congrArg Variable.mk (String.le_antisymm (hv.2 w hw.1) (hw.2 v hv.1))

/-! ## Looking for a clash -/

theorem mem_of_find {v : Variable} {t : Term} {entries : List (Variable × Term)}
    (h : find v entries = some t) : (v, t) ∈ entries := by
  induction entries with
  | nil => cases h
  | cons e rest ih =>
    obtain ⟨w, u⟩ := e
    by_cases hv : v = w
    · subst hv
      obtain rfl : u = t := by simpa [find] using h
      simp
    · exact List.mem_cons_of_mem _ (ih (by simpa [find, hv] using h))

theorem find_of_mem {v : Variable} {t : Term} {entries : List (Variable × Term)}
    (ho : EntriesOrdered entries) (h : (v, t) ∈ entries) : find v entries = some t := by
  induction entries with
  | nil => cases h
  | cons e rest ih =>
    obtain ⟨w, u⟩ := e
    obtain ⟨first, others⟩ := List.pairwise_cons.1 ho
    rcases List.mem_cons.1 h with heq | hrest
    · cases heq
      simp [find]
    · have hne : v ≠ w := by
        rintro rfl
        exact String.lt_irrefl v.name (first _ hrest)
      simpa [find, hne] using ih others hrest

theorem mem_entries_iff {b : Binding} {v : Variable} {t : Term} :
    (v, t) ∈ b.entries ↔ b.get? v = some t :=
  ⟨find_of_mem b.ordered, mem_of_find⟩

theorem all_entries_iff_agree {a b : Binding} :
    (a.entries.all fun (v, t) => (b.get? v).all (· == t)) = true ↔ a.Agree b := by
  rw [List.all_eq_true]
  constructor
  · intro h v x y hx hy
    have hv := h (v, x) (mem_entries_iff.2 hx)
    simp only [hy, Option.all_some, beq_iff_eq] at hv
    exact hv.symm
  · rintro h ⟨v, t⟩ hmem
    have ht := mem_entries_iff.1 hmem
    cases hb : b.get? v with
    | none => simp [hb]
    | some u => simp [hb, h v t u ht hb]

/-- **Compatible bindings are those that agree.** -/
theorem isCompatible_iff_agree {a b : Binding} : a.isCompatible b = true ↔ a.Agree b := by
  unfold isCompatible bySize
  by_cases hsize : a.size ≤ b.size
  · simp only [if_pos hsize]
    exact all_entries_iff_agree
  · simp only [if_neg hsize]
    exact all_entries_iff_agree.trans ⟨Agree.symm, Agree.symm⟩

/-! ## The conflict that is reported -/

/-- What extending by an entry can do: it binds the variable, or reports the term that is already
there. -/
theorem extend_cases (b : Binding) (v : Variable) (t : Term) :
    (∀ u, b.get? v = some u → u = t) ∧ b.extend v t = .ok (b.insert v t) ∨
      ∃ u, b.get? v = some u ∧ u ≠ t ∧ b.extend v t = .error ⟨v, u, t⟩ := by
  by_cases ha : ∀ u, b.get? v = some u → u = t
  · exact .inl ⟨ha, extend_of_agree ha⟩
  · push Not at ha
    obtain ⟨u, hu, hne⟩ := ha
    exact .inr ⟨u, hu, hne, extend_of_conflict hu hne⟩

/-- Entries are added in name order and the first one refused is reported, so the entries before
it met no other term. -/
theorem extendAll_eq_error {entries : List (Variable × Term)} (ho : EntriesOrdered entries)
    {b : Binding} {c : Conflict} (h : b.extendAll entries = .error c) :
    find c.var entries = some c.refused ∧ b.get? c.var = some c.present ∧
      c.present ≠ c.refused ∧
      ∀ w s u, find w entries = some s → b.get? w = some u → u ≠ s → c.var.name ≤ w.name := by
  induction entries generalizing b with
  | nil => cases h
  | cons e rest ih =>
    obtain ⟨v, t⟩ := e
    obtain ⟨first, others⟩ := List.pairwise_cons.1 ho
    rw [extendAll] at h
    obtain ⟨hagree, hok⟩ | ⟨x, hx, hne, herror⟩ := b.extend_cases v t
    · -- the head met no other term, so the conflict is behind it
      rw [hok] at h
      obtain ⟨hrefused, hpresent, hne, hleast⟩ := ih others h
      have hcv : c.var ≠ v := by
        intro heq
        rw [heq, find_head_eq_none ho] at hrefused
        cases hrefused
      refine ⟨by simpa [find, hcv] using hrefused, by simpa [hcv] using hpresent, hne,
        fun w s u hw hu hus => ?_⟩
      by_cases hwv : w = v
      · subst hwv
        obtain rfl : t = s := by simpa [find] using hw
        exact absurd (hagree u hu) hus
      · exact hleast w s u (by simpa [find, hwv] using hw) (by simpa [hwv] using hu) hus
    · -- the head is refused, and every other entry is behind it
      rw [herror] at h
      cases h
      refine ⟨by simp [find], hx, hne, fun w s u hw _ _ => ?_⟩
      by_cases hwv : w = v
      · exact hwv ▸ String.le_refl _
      · have hmem : (w, s) ∈ rest := mem_of_find (by simpa [find, hwv] using hw)
        exact String.not_lt.1 fun hlt => String.lt_irrefl _ (String.lt_trans hlt (first _ hmem))

theorem extendAll_entries_eq_error {small large : Binding} {c : Conflict}
    (h : large.extendAll small.entries = .error c) :
    small.get? c.var = some c.refused ∧ large.get? c.var = some c.present ∧
      small.FirstClash large c.var := by
  obtain ⟨hrefused, hpresent, hne, hleast⟩ := extendAll_eq_error small.ordered h
  refine ⟨hrefused, hpresent, ⟨_, _, hrefused, hpresent, hne.symm⟩, fun w hw => ?_⟩
  obtain ⟨s, u, hs, hu, hsu⟩ := hw
  exact hleast w s u hs hu hsu.symm

/-- **A failed merge reports the first clash**, with the term of the larger binding as the one
present and that of the smaller binding as the one refused. -/
theorem merge_eq_error {a b : Binding} {c : Conflict} (h : a.merge b = .error c) :
    a.FirstClash b c.var ∧ (a.bySize b).1.get? c.var = some c.refused ∧
      (a.bySize b).2.get? c.var = some c.present := by
  unfold merge bySize at h
  unfold bySize
  by_cases hsize : a.size ≤ b.size
  · simp only [if_pos hsize] at h ⊢
    obtain ⟨hrefused, hpresent, hclash⟩ := extendAll_entries_eq_error h
    exact ⟨hclash, hrefused, hpresent⟩
  · simp only [if_neg hsize] at h ⊢
    obtain ⟨hrefused, hpresent, hclash⟩ := extendAll_entries_eq_error h
    exact ⟨hclash.symm, hrefused, hpresent⟩

/-! ## The laws -/

theorem merge_eq_ok_iff {a b m : Binding} : a.merge b = .ok m ↔ a.union? b = some m := by
  unfold union?
  cases a.merge b <;> simp [Except.toOption]

theorem merge_isOk_iff {a b : Binding} : (∃ m, a.merge b = .ok m) ↔ a.Agree b := by
  constructor
  · rintro ⟨m, hm⟩
    exact agree_of_union? (merge_eq_ok_iff.1 hm)
  · intro h
    obtain ⟨m, hm, -⟩ := merge_of_agree h
    exact ⟨m, hm⟩

/-- Merging in either order gives one binding, or fails over one variable. -/
theorem merge_comm_or_clash (a b : Binding) :
    (∃ m, a.merge b = .ok m ∧ b.merge a = .ok m) ∨
      ∃ c d, a.merge b = .error c ∧ b.merge a = .error d ∧ c.var = d.var ∧
        a.FirstClash b c.var := by
  by_cases h : a.Agree b
  · obtain ⟨m, hm⟩ := merge_isOk_iff.2 h
    have hcomm : b.union? a = some m := by rw [← union?_comm, merge_eq_ok_iff.1 hm]
    exact .inl ⟨m, hm, merge_eq_ok_iff.2 hcomm⟩
  · obtain ⟨c, hc⟩ := merge_of_not_agree h
    obtain ⟨d, hd⟩ := merge_of_not_agree fun hba => h hba.symm
    have hfirst := (merge_eq_error hc).1
    exact .inr ⟨c, d, hc, hd, hfirst.unique (merge_eq_error hd).1.symm, hfirst⟩

theorem merge_assoc_iff (a b c n : Binding) :
    (∃ m, a.merge b = .ok m ∧ m.merge c = .ok n) ↔
      ∃ m, b.merge c = .ok m ∧ a.merge m = .ok n := by
  have hassoc := union?_bind_assoc a b c
  simp only [merge_eq_ok_iff, ← Option.bind_eq_some_iff, hassoc]

/-- **Bindings are a commutative partial monoid under merging.** A merge is defined where the two
bindings agree, which is what compatibility decides in either direction; it has the terms of the
first binding and those of the second for the variables that the first leaves unbound. Swapping
the operands changes neither the result nor the variable of a failure, the first one at which they
clash. The empty binding is a unit, merging is idempotent, and it associates, definedness included.
Two bindings are equal when they have the same term for every variable. -/
theorem merge_partial_union (a b c : Binding) :
    ((∃ m, a.merge b = .ok m) ↔ a.isCompatible b = true) ∧
      (a.isCompatible b = true ↔ b.isCompatible a = true) ∧
      (b.isCompatible a = true ↔ ∀ v x y, a.get? v = some x → b.get? v = some y → x = y) ∧
      (∀ m, a.merge b = .ok m → ∀ v, m.get? v = (a.get? v).or (b.get? v)) ∧
      ((∃ m, a.merge b = .ok m ∧ b.merge a = .ok m) ∨
        ∃ d e, a.merge b = .error d ∧ b.merge a = .error e ∧ d.var = e.var ∧
          a.FirstClash b d.var) ∧
      (a.merge empty = .ok a ∧ empty.merge a = .ok a ∧ a.merge a = .ok a) ∧
      (∀ n, (∃ m, a.merge b = .ok m ∧ m.merge c = .ok n) ↔
        ∃ m, b.merge c = .ok m ∧ a.merge m = .ok n) ∧
      ((a == b) = true ↔ ∀ v, a.get? v = b.get? v) := by
  have hcompatible : b.isCompatible a = true ↔ a.Agree b :=
    isCompatible_iff_agree.trans ⟨Agree.symm, Agree.symm⟩
  refine ⟨merge_isOk_iff.trans isCompatible_iff_agree.symm,
    isCompatible_iff_agree.trans hcompatible.symm, hcompatible,
    fun m hm => get?_union? (merge_eq_ok_iff.1 hm), merge_comm_or_clash a b, ?units,
    merge_assoc_iff a b c, ?equal⟩
  case units =>
    exact ⟨merge_eq_ok_iff.2 (union?_empty a), merge_eq_ok_iff.2 (empty_union? a),
      merge_eq_ok_iff.2 (union?_of_extends (.refl a))⟩
  case equal =>
    rw [beq_iff_eq]
    constructor
    · rintro rfl v
      rfl
    · exact ext_get?

end TripleQuery.Binding
