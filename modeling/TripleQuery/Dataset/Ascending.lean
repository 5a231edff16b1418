/-!
# Maps and sets in ascending order

A finite map is the list of its entries in strictly ascending order of their keys, so two maps with
the same entries are equal. `update` puts a value in the place of a key, made of the one that is
there, if any. A set is a map that keeps nothing for its keys.
-/

namespace TripleQuery

/-- A finite map, as the list of its entries with strictly ascending keys. -/
structure AscendingMap (κ ν : Type) (cmp : κ → κ → Ordering) where
  entries : List (κ × ν)
  ordered : entries.Pairwise fun a b => cmp a.1 b.1 = .lt

/-- A finite set, as the list of its members in strictly ascending order. -/
abbrev AscendingSet (κ : Type) (cmp : κ → κ → Ordering) : Type := AscendingMap κ Unit cmp

namespace AscendingMap

section Maps

variable {κ ν : Type} {cmp : κ → κ → Ordering}

/-- The map without entries. -/
def empty : AscendingMap κ ν cmp := ⟨[], .nil⟩

/-- The keys in ascending order. -/
def keys (m : AscendingMap κ ν cmp) : List κ := m.entries.map (·.1)

/-- The number of keys. -/
def size (m : AscendingMap κ ν cmp) : Nat := m.entries.length

/-! ## Looking up -/

/-- The value of a key among some entries. -/
def lookup (cmp : κ → κ → Ordering) (k : κ) : List (κ × ν) → Option ν
  | [] => none
  | (l, v) :: rest => if cmp k l = .eq then some v else lookup cmp k rest

/-- The value of a key. -/
def get? (m : AscendingMap κ ν cmp) (k : κ) : Option ν := lookup cmp k m.entries

/-- Whether there is an entry of a key. -/
def contains (m : AscendingMap κ ν cmp) (k : κ) : Bool := (m.get? k).isSome

theorem mem_of_lookup [Std.LawfulEqCmp cmp] {k : κ} {v : ν} {entries : List (κ × ν)}
    (h : lookup cmp k entries = some v) : (k, v) ∈ entries := by
  induction entries with
  | nil => cases h
  | cons head rest ih =>
    obtain ⟨l, w⟩ := head
    rw [lookup] at h
    split at h
    · next heq =>
      obtain rfl : k = l := Std.LawfulEqCmp.eq_of_compare heq
      cases h
      exact List.mem_cons_self
    · exact List.mem_cons_of_mem _ (ih h)

theorem lookup_of_mem [Std.TransCmp cmp] {k : κ} {v : ν} {entries : List (κ × ν)}
    (ordered : entries.Pairwise fun a b => cmp a.1 b.1 = .lt) (h : (k, v) ∈ entries) :
    lookup cmp k entries = some v := by
  induction entries with
  | nil => cases h
  | cons head rest ih =>
    obtain ⟨l, w⟩ := head
    obtain ⟨first, others⟩ := List.pairwise_cons.1 ordered
    rw [lookup]
    rcases List.mem_cons.1 h with heq | hrest
    · cases heq
      rw [if_pos Std.ReflCmp.compare_self]
    · have hlt : cmp l k = .lt := first (k, v) hrest
      have hne : cmp k l ≠ .eq := by
        rw [Std.OrientedCmp.gt_of_lt hlt]
        exact nofun
      rw [if_neg hne]
      exact ih others hrest

/-- A key before all others is none of them. -/
theorem lookup_before {k : κ} {entries : List (κ × ν)} (h : ∀ e ∈ entries, cmp k e.1 = .lt) :
    lookup cmp k entries = none := by
  induction entries with
  | nil => rfl
  | cons head rest ih =>
    obtain ⟨hhead, hrest⟩ := List.forall_mem_cons.1 h
    rw [lookup, if_neg (by rw [hhead]; exact nofun)]
    exact ih hrest

theorem get?_eq_some_iff [Std.TransCmp cmp] [Std.LawfulEqCmp cmp] {m : AscendingMap κ ν cmp}
    {k : κ} {v : ν} : m.get? k = some v ↔ (k, v) ∈ m.entries :=
  ⟨mem_of_lookup, lookup_of_mem m.ordered⟩

theorem contains_iff_mem_keys [Std.TransCmp cmp] [Std.LawfulEqCmp cmp] {m : AscendingMap κ ν cmp}
    {k : κ} : m.contains k = true ↔ k ∈ m.keys := by
  rw [contains, Option.isSome_iff_exists]
  constructor
  · rintro ⟨v, hv⟩
    exact List.mem_map.2 ⟨(k, v), get?_eq_some_iff.1 hv, rfl⟩
  · intro hk
    obtain ⟨⟨l, v⟩, hmem, rfl⟩ := List.mem_map.1 hk
    exact ⟨v, get?_eq_some_iff.2 hmem⟩

/-! ## Updating -/

/-- Some entries with another value for a key; the function makes it of the value there is. -/
def alter (cmp : κ → κ → Ordering) (k : κ) (f : Option ν → ν) : List (κ × ν) → List (κ × ν)
  | [] => [(k, f none)]
  | (l, v) :: rest =>
    match cmp k l with
    | .lt => (k, f none) :: (l, v) :: rest
    | .eq => (l, f (some v)) :: rest
    | .gt => (l, v) :: alter cmp k f rest

theorem ne_of_before [Std.ReflCmp cmp] {k l : κ} (h : cmp k l = .lt) : l ≠ k := by
  rintro rfl
  have heq : cmp l l = .eq := Std.ReflCmp.compare_self
  rw [heq] at h
  cases h

theorem mem_alter [Std.TransCmp cmp] [Std.LawfulEqCmp cmp] {k : κ} {f : Option ν → ν}
    {e : κ × ν} {entries : List (κ × ν)}
    (ordered : entries.Pairwise fun a b => cmp a.1 b.1 = .lt) :
    e ∈ alter cmp k f entries ↔
      e = (k, f (lookup cmp k entries)) ∨ e ∈ entries ∧ e.1 ≠ k := by
  induction entries with
  | nil => simp [alter, lookup]
  | cons head rest ih =>
    obtain ⟨l, v⟩ := head
    obtain ⟨first, others⟩ := List.pairwise_cons.1 ordered
    cases hcmp : cmp k l with
    | lt =>
      have hbefore : ∀ e ∈ (l, v) :: rest, cmp k e.1 = .lt := List.forall_mem_cons.2
        ⟨hcmp, fun e he => Std.TransCmp.lt_trans hcmp (first e he)⟩
      simp only [alter, hcmp, lookup_before hbefore, List.mem_cons (b := (k, f none))]
      exact or_congr_right (iff_self_and.2 fun he => ne_of_before (hbefore e he))
    | eq =>
      obtain rfl : k = l := Std.LawfulEqCmp.eq_of_compare hcmp
      have hrest : e ∈ rest ↔ e ∈ (k, v) :: rest ∧ e.1 ≠ k := by
        constructor
        · intro he
          exact ⟨List.mem_cons_of_mem _ he, ne_of_before (first e he)⟩
        · rintro ⟨he, hne⟩
          rcases List.mem_cons.1 he with rfl | he
          · exact absurd rfl hne
          · exact he
      simp only [alter, lookup, hcmp, if_true, List.mem_cons (b := (k, f (some v))), hrest]
    | gt =>
      have hne : l ≠ k := (ne_of_before (Std.OrientedCmp.lt_of_gt hcmp)).symm
      have hhead : e = (l, v) ↔ e = (l, v) ∧ e.1 ≠ k :=
        iff_self_and.2 fun he => he ▸ hne
      simp only [alter, lookup, hcmp, reduceCtorEq, if_false, List.mem_cons (b := (l, v)),
        ih others, or_and_right, ← hhead]
      exact or_left_comm

theorem key_of_mem_alter {k : κ} {f : Option ν → ν} {e : κ × ν} {entries : List (κ × ν)}
    (h : e ∈ alter cmp k f entries) : e.1 = k ∨ ∃ old ∈ entries, e.1 = old.1 := by
  induction entries with
  | nil => exact .inl (congrArg Prod.fst (List.mem_singleton.1 h))
  | cons head rest ih =>
    obtain ⟨l, v⟩ := head
    rw [alter] at h
    split at h
    · rcases List.mem_cons.1 h with rfl | h
      · exact .inl rfl
      · exact .inr ⟨e, h, rfl⟩
    · rcases List.mem_cons.1 h with rfl | h
      · exact .inr ⟨(l, v), List.mem_cons_self, rfl⟩
      · exact .inr ⟨e, List.mem_cons_of_mem _ h, rfl⟩
    · rcases List.mem_cons.1 h with rfl | h
      · exact .inr ⟨(l, v), List.mem_cons_self, rfl⟩
      · refine (ih h).imp_right ?_
        rintro ⟨old, hold, hkey⟩
        exact ⟨old, List.mem_cons_of_mem _ hold, hkey⟩

theorem alter_ordered [Std.TransCmp cmp] {k : κ} {f : Option ν → ν} {entries : List (κ × ν)}
    (ordered : entries.Pairwise fun a b => cmp a.1 b.1 = .lt) :
    (alter cmp k f entries).Pairwise fun a b => cmp a.1 b.1 = .lt := by
  induction entries with
  | nil => exact List.pairwise_singleton ..
  | cons head rest ih =>
    obtain ⟨l, v⟩ := head
    obtain ⟨first, others⟩ := List.pairwise_cons.1 ordered
    rw [alter]
    split
    · next hlt =>
      refine List.pairwise_cons.2 ⟨List.forall_mem_cons.2 ⟨hlt, fun e he => ?_⟩, ordered⟩
      exact Std.TransCmp.lt_trans hlt (first e he)
    · exact List.pairwise_cons.2 ⟨first, others⟩
    · next hgt =>
      refine List.pairwise_cons.2 ⟨fun e he => ?_, ih others⟩
      rcases key_of_mem_alter he with hkey | ⟨old, hold, hkey⟩
      · exact hkey ▸ Std.OrientedCmp.lt_of_gt hgt
      · exact hkey ▸ first old hold

/-- The map with another value for a key, made of the value there is. -/
def update [Std.TransCmp cmp] (m : AscendingMap κ ν cmp) (k : κ) (f : Option ν → ν) :
    AscendingMap κ ν cmp :=
  ⟨alter cmp k f m.entries, alter_ordered m.ordered⟩

theorem mem_update [Std.TransCmp cmp] [Std.LawfulEqCmp cmp] {m : AscendingMap κ ν cmp} {k : κ}
    {f : Option ν → ν} {e : κ × ν} :
    e ∈ (m.update k f).entries ↔ e = (k, f (m.get? k)) ∨ e ∈ m.entries ∧ e.1 ≠ k :=
  mem_alter m.ordered

theorem get?_update_self [Std.TransCmp cmp] [Std.LawfulEqCmp cmp] (m : AscendingMap κ ν cmp)
    (k : κ) (f : Option ν → ν) : (m.update k f).get? k = some (f (m.get? k)) :=
  get?_eq_some_iff.2 (mem_update.2 (.inl rfl))

theorem get?_update_of_ne [Std.TransCmp cmp] [Std.LawfulEqCmp cmp] (m : AscendingMap κ ν cmp)
    {k l : κ} (h : l ≠ k) (f : Option ν → ν) : (m.update k f).get? l = m.get? l := by
  refine Option.ext fun v => ?_
  rw [get?_eq_some_iff, get?_eq_some_iff, mem_update]
  constructor
  · rintro (hnew | hold)
    · exact absurd (congrArg Prod.fst hnew) h
    · exact hold.1
  · exact fun hmem => .inr ⟨hmem, h⟩

end Maps

section Sets

variable {κ : Type} {cmp : κ → κ → Ordering}

/-- The set with a member more. -/
def insert [Std.TransCmp cmp] (s : AscendingSet κ cmp) (k : κ) : AscendingSet κ cmp :=
  s.update k fun _ => ()

theorem mem_keys_iff {s : AscendingSet κ cmp} {k : κ} : k ∈ s.keys ↔ (k, ()) ∈ s.entries := by
  refine ⟨fun hk => ?_, fun hk => List.mem_map.2 ⟨(k, ()), hk, rfl⟩⟩
  obtain ⟨⟨l, u⟩, hmem, rfl⟩ := List.mem_map.1 hk
  exact hmem

@[simp] theorem mem_keys_insert [Std.TransCmp cmp] [Std.LawfulEqCmp cmp] {s : AscendingSet κ cmp}
    {k l : κ} : l ∈ (s.insert k).keys ↔ l = k ∨ l ∈ s.keys := by
  rw [mem_keys_iff, mem_keys_iff, insert, mem_update]
  by_cases hl : l = k
  · subst hl
    exact iff_of_true (.inl rfl) (.inl rfl)
  · have hnew : (l, ()) ≠ (k, ()) := fun heq => hl (congrArg Prod.fst heq)
    rw [or_iff_right hl, or_iff_right hnew]
    exact and_iff_left hl

end Sets

end AscendingMap

end TripleQuery
