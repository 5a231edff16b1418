import TripleQuery.Proofs.Expr.SortOrder
import TripleQuery.Proofs.Solutions.Basic

/-!
# Stable sorts by several keys

Rows are compared by the first key that tells them apart (`Precedes`), and rows that no key tells
apart tie (`Ties`). A sorted list is stable if ties stand as they stood before. To say so, each row
carries the place it comes from (`StableSort`).

The values of the keys have to be well-tagged, because only then is the sort order transitive.
-/

namespace TripleQuery

/-! ## Keys -/

namespace SortKey

variable {k : SortKey} {a b : Binding}

/-- The value of the key for a row. A key that fails counts as unbound. -/
def value? (k : SortKey) (row : Binding) : Option Term := (k.expr.evaluate row).toOption

/-- Rows by the key alone. A descending key compares them the other way round. -/
def order (k : SortKey) (a b : Binding) : Ordering :=
  match k.direction with
  | .ascending => sortOrder (k.value? a) (k.value? b)
  | .descending => sortOrder (k.value? b) (k.value? a)

/-- What the key evaluates to for a row is well-tagged. -/
def Tagged (k : SortKey) (row : Binding) : Prop :=
  ∀ t, k.expr.evaluate row = .ok t → t.WellTagged

theorem Tagged.value (h : k.Tagged a) : TaggedValue (k.value? a) := by
  intro t ht
  unfold value? at ht
  cases he : k.expr.evaluate a with
  | ok u =>
    rw [he] at ht
    cases ht
    exact h t he
  | error e =>
    rw [he] at ht
    cases ht

theorem order_swap (k : SortKey) (a b : Binding) : k.order a b = (k.order b a).swap := by
  unfold order
  cases k.direction <;> exact sortOrder_swap _ _

theorem order_trans {c : Binding} (ha : k.Tagged a) (hc : k.Tagged c) (hab : (k.order a b).isLE)
    (hbc : (k.order b c).isLE) : (k.order a c).isLE := by
  unfold order at hab hbc ⊢
  cases h : k.direction with
  | ascending =>
    rw [h] at hab hbc
    exact sortOrder_trans ha.value hab hbc
  | descending =>
    rw [h] at hab hbc
    exact sortOrder_trans hc.value hbc hab

theorem apply_sortOrder (k : SortKey) (a b : Binding) :
    k.direction.apply (sortOrder (k.value? a) (k.value? b)) = k.order a b := by
  unfold order
  cases k.direction with
  | ascending => rfl
  | descending => exact (sortOrder_swap _ _).symm

/-- Among rows with well-tagged values a key is an order. -/
theorem transCmp {P : Binding → Prop} (k : SortKey) (h : ∀ row, P row → k.Tagged row) :
    Std.TransCmp fun a b : Subtype P => k.order a b where
  eq_swap := k.order_swap _ _
  isLE_trans {a _ c} hab hbc := order_trans (h a a.2) (h c c.2) hab hbc

end SortKey

/-! ## Rows -/

/-- The first key that tells two rows apart has the first one before the second one. -/
inductive Precedes : List SortKey → Binding → Binding → Prop where
  | decided {k : SortKey} {keys : List SortKey} {a b : Binding} (h : k.order a b = .lt) :
    Precedes (k :: keys) a b
  | tied {k : SortKey} {keys : List SortKey} {a b : Binding} (h : k.order a b = .eq)
    (hrest : Precedes keys a b) : Precedes (k :: keys) a b

/-- No key tells two rows apart. -/
def Ties (keys : List SortKey) (a b : Binding) : Prop := ∀ k ∈ keys, k.order a b = .eq

/-- Rows by the values of some keys. -/
def rowOrder (keys : List SortKey) (a b : Binding) : Ordering :=
  compareKeys keys (keyValues keys a) (keyValues keys b)

section Order

variable {k : SortKey} {keys : List SortKey} {a b : Binding}

theorem rowOrder_cons (k : SortKey) (keys : List SortKey) (a b : Binding) :
    rowOrder (k :: keys) a b = (k.order a b).then (rowOrder keys a b) :=
  congrArg (Ordering.then · (rowOrder keys a b)) (k.apply_sortOrder a b)

theorem rowOrder_eq_lt_iff : rowOrder keys a b = .lt ↔ Precedes keys a b := by
  induction keys with
  | nil =>
    constructor
    · intro h
      cases h
    · rintro ⟨⟩
  | cons k keys ih =>
    rw [rowOrder_cons, Ordering.then_eq_lt, ih]
    constructor
    · rintro (h | ⟨h, hrest⟩)
      · exact .decided h
      · exact .tied h hrest
    · rintro (h | ⟨h, hrest⟩)
      · exact .inl h
      · exact .inr ⟨h, hrest⟩

theorem rowOrder_eq_eq_iff : rowOrder keys a b = .eq ↔ Ties keys a b := by
  induction keys with
  | nil => exact ⟨fun _ k hk => (List.not_mem_nil hk).elim, fun _ => rfl⟩
  | cons k keys ih =>
    rw [rowOrder_cons, Ordering.then_eq_eq, ih]
    simp only [Ties, List.mem_cons, forall_eq_or_imp]

theorem rowOrder_swap (keys : List SortKey) (a b : Binding) :
    rowOrder keys a b = (rowOrder keys b a).swap := by
  induction keys with
  | nil => rfl
  | cons k keys ih => rw [rowOrder_cons, rowOrder_cons, Ordering.swap_then, ← k.order_swap, ← ih]

/-- Among rows with well-tagged values several keys are an order. -/
theorem rowOrder_transCmp {P : Binding → Prop}
    (h : ∀ row, P row → ∀ k ∈ keys, k.Tagged row) :
    Std.TransCmp fun a b : Subtype P => rowOrder keys a b := by
  induction keys with
  | nil =>
    have hnil : (fun a b : Subtype P => rowOrder [] a b) = fun _ _ => .eq := rfl
    rw [hnil]
    exact { eq_swap := rfl, isLE_trans := fun _ _ => rfl }
  | cons k keys ih =>
    have hk : Std.TransCmp fun a b : Subtype P => k.order a b :=
      k.transCmp fun row hrow => h row hrow k List.mem_cons_self
    have hkeys : Std.TransCmp fun a b : Subtype P => rowOrder keys a b :=
      ih fun row hrow k' hk' => h row hrow k' (List.mem_cons_of_mem k hk')
    have hcons : (fun a b : Subtype P => rowOrder (k :: keys) a b) =
        compareLex (fun a b : Subtype P => k.order a b)
          (fun a b : Subtype P => rowOrder keys a b) := by
      funext a b
      exact rowOrder_cons k keys a b
    rw [hcons]
    infer_instance

end Order

/-! ## Sorted lists -/

/-- The second list is the first one sorted by the keys, ties in the order of the first one. -/
def StableSort (keys : List SortKey) (rows out : List Binding) : Prop :=
  ∃ placed : List (Binding × Nat), placed.Perm rows.zipIdx ∧ placed.map Prod.fst = out ∧
    placed.Pairwise fun a b => Precedes keys a.1 b.1 ∨ Ties keys a.1 b.1 ∧ a.2 < b.2

section Sorted

variable {keys : List SortKey} {rows out : List Binding}

theorem StableSort.perm (h : StableSort keys rows out) : out.Perm rows := by
  obtain ⟨placed, hperm, rfl, -⟩ := h
  have hrows : rows.zipIdx.map Prod.fst = rows := List.zipIdx_map_fst 0 rows
  rw [← hrows]
  exact hperm.map Prod.fst

theorem StableSort.pairwise (h : StableSort keys rows out) :
    out.Pairwise fun a b => Precedes keys a b ∨ Ties keys a b := by
  obtain ⟨placed, -, rfl, hsorted⟩ := h
  rw [List.pairwise_map]
  exact hsorted.imp fun hab => hab.imp_right And.left

theorem precedes_or_ties_of_zipIdxLE {a b : Binding × Nat}
    (h : List.zipIdxLE (sortsBefore keys) a b = true) (hne : a.2 ≠ b.2) :
    Precedes keys a.1 b.1 ∨ Ties keys a.1 b.1 ∧ a.2 < b.2 := by
  have hab : sortsBefore keys a.1 b.1 = (rowOrder keys a.1 b.1).isLE := rfl
  have hba : sortsBefore keys b.1 a.1 = (rowOrder keys a.1 b.1).swap.isLE := by
    rw [← rowOrder_swap]
    rfl
  rw [List.zipIdxLE, hab, hba] at h
  cases ho : rowOrder keys a.1 b.1 with
  | lt => exact .inl (rowOrder_eq_lt_iff.1 ho)
  | eq =>
    rw [ho] at h
    have hle : a.2 ≤ b.2 := by simpa using h
    exact .inr ⟨rowOrder_eq_eq_iff.1 ho, Nat.lt_of_le_of_ne hle hne⟩
  | gt => simp [ho] at h

/-- **Merge sort is stable.** Rows with well-tagged values are sorted, and ties stay in order. -/
theorem stableSort_mergeSort (h : ∀ row ∈ rows, ∀ k ∈ keys, k.Tagged row) :
    StableSort keys rows (rows.mergeSort (sortsBefore keys)) := by
  -- only the rows that are sorted are known to be well-tagged
  have horder : Std.TransCmp fun a b : {row // row ∈ rows} => rowOrder keys a b :=
    rowOrder_transCmp h
  let le (a b : {row // row ∈ rows}) : Bool := sortsBefore keys a b
  let sorted := rows.attach.zipIdx.mergeSort (List.zipIdxLE le)
  have htrans (a b c : {row // row ∈ rows}) (hab : le a b = true) (hbc : le b c = true) :
      le a c = true :=
    horder.isLE_trans hab hbc
  have htotal (a b : {row // row ∈ rows}) : (le a b || le b a) = true := by
    show ((rowOrder keys a b).isLE || (rowOrder keys b a).isLE) = true
    rw [rowOrder_swap keys b a]
    cases rowOrder keys a b <;> rfl
  refine ⟨sorted.map (Prod.map Subtype.val id), ?perm, ?rows, ?sorted⟩
  case perm =>
    have hplaces : rows.attach.zipIdx.map (Prod.map Subtype.val id) = rows.zipIdx := by
      rw [List.map_zipIdx, List.attach_map_subtype_val]
    rw [← hplaces]
    exact (List.mergeSort_perm _ _).map _
  case rows =>
    have hrow : Prod.fst ∘ Prod.map Subtype.val id =
        (Subtype.val : {row // row ∈ rows} → Binding) ∘ (Prod.fst : _ × Nat → _) := rfl
    have hplain : (rows.attach.mergeSort le).map Subtype.val =
        (rows.attach.map Subtype.val).mergeSort (sortsBefore keys) :=
      List.map_mergeSort fun _ _ _ _ => rfl
    rw [List.attach_map_subtype_val] at hplain
    rw [List.map_map, hrow, ← List.map_map, ← hplain]
    exact congrArg (List.map Subtype.val) List.mergeSort_zipIdx
  case sorted =>
    have hplaces : (sorted.map Prod.snd).Nodup := by
      have hperm : (sorted.map Prod.snd).Perm (rows.attach.zipIdx.map Prod.snd) :=
        (List.mergeSort_perm _ _).map _
      rw [hperm.nodup_iff, List.zipIdx_map_snd]
      exact List.nodup_range'
    have hsorted : sorted.Pairwise fun a b => List.zipIdxLE le a b = true :=
      List.pairwise_mergeSort (List.zipIdxLE_trans htrans) (List.zipIdxLE_total htotal) _
    rw [List.pairwise_map]
    exact (hsorted.and (List.pairwise_map.1 hplaces)).imp fun ⟨hle, hne⟩ =>
      precedes_or_ties_of_zipIdxLE hle hne

end Sorted

end TripleQuery
