import TripleQuery.Term.Order
import TripleQuery.Variable

/-!
# Bindings

A binding is one row of a result: a finite partial map from variables to terms. It is kept as a
list of entries in strictly ascending order of names, so two bindings are equal exactly when they
bind the same variables to the same terms, however they were built.

`extend` and `merge` add entries and refuse to change one; the refusal names the variable and the
two terms.
-/

namespace TripleQuery

/-- The entries of a binding: variables in strictly ascending order of names. -/
def EntriesOrdered (entries : List (Variable × Term)) : Prop :=
  entries.Pairwise fun a b => a.1.name < b.1.name

instance (entries : List (Variable × Term)) : Decidable (EntriesOrdered entries) :=
  inferInstanceAs (Decidable (entries.Pairwise _))

/-- A finite partial map from variables to terms. -/
structure Binding where
  entries : List (Variable × Term)
  ordered : EntriesOrdered entries
deriving DecidableEq

namespace Binding

/-- The binding of no variable. -/
def empty : Binding := ⟨[], .nil⟩

instance : Inhabited Binding := ⟨empty⟩

/-! ## Looking up -/

/-- The term of a variable among some entries. -/
def find (v : Variable) : List (Variable × Term) → Option Term
  | [] => none
  | (w, u) :: rest => if v = w then some u else find v rest

/-- The term bound to a variable. -/
def get? (b : Binding) (v : Variable) : Option Term := find v b.entries

/-- Whether a variable is bound. -/
def contains (b : Binding) (v : Variable) : Bool := (b.get? v).isSome

theorem find_eq_none {v : Variable} {entries : List (Variable × Term)}
    (h : ∀ e ∈ entries, v.name < e.1.name) : find v entries = none := by
  induction entries with
  | nil => rfl
  | cons head rest ih =>
    have hne : v ≠ head.1 := fun heq => String.lt_irrefl v.name (by
      have := h head List.mem_cons_self
      rwa [← heq] at this)
    simp only [find, if_neg hne]
    exact ih fun e he => h e (List.mem_cons_of_mem _ he)

theorem entries_eq_of_find_eq {xs ys : List (Variable × Term)} (hx : EntriesOrdered xs)
    (hy : EntriesOrdered ys) (h : ∀ v, find v xs = find v ys) : xs = ys := by
  induction xs generalizing ys with
  | nil =>
    cases ys with
    | nil => rfl
    | cons head rest => simpa [find] using h head.1
  | cons head xs ih =>
    obtain ⟨v, t⟩ := head
    obtain ⟨firstX, othersX⟩ := List.pairwise_cons.1 hx
    cases ys with
    | nil => simpa [find] using h v
    | cons head ys =>
      obtain ⟨w, u⟩ := head
      obtain ⟨firstY, othersY⟩ := List.pairwise_cons.1 hy
      have hle : w.name ≤ v.name := String.not_lt.1 fun hlt => by
        have hnone : find v ((w, u) :: ys) = none := find_eq_none (List.forall_mem_cons.2
          ⟨hlt, fun e he => String.lt_trans hlt (firstY e he)⟩)
        rw [← h v] at hnone
        simp [find] at hnone
      have hge : v.name ≤ w.name := String.not_lt.1 fun hlt => by
        have hnone : find w ((v, t) :: xs) = none := find_eq_none (List.forall_mem_cons.2
          ⟨hlt, fun e he => String.lt_trans hlt (firstX e he)⟩)
        rw [h w] at hnone
        simp [find] at hnone
      have hvw : v = w := congrArg Variable.mk (String.le_antisymm hge hle)
      subst hvw
      have htu : t = u := by simpa [find] using h v
      subst htu
      refine congrArg _ (ih othersX othersY fun x => ?_)
      by_cases hxv : x = v
      · rw [hxv, find_eq_none firstX, find_eq_none firstY]
      · simpa [find, hxv] using h x

/-- Two bindings that bind the same variables to the same terms are the same. -/
theorem ext_get? {a b : Binding} (h : ∀ v, a.get? v = b.get? v) : a = b := by
  obtain ⟨xs, hx⟩ := a
  obtain ⟨ys, hy⟩ := b
  have hxy : xs = ys := entries_eq_of_find_eq hx hy h
  subst hxy
  rfl

/-- The number of bound variables. -/
def size (b : Binding) : Nat := b.entries.length

/-- Whether no variable is bound. -/
def isEmpty (b : Binding) : Bool := b.entries.isEmpty

/-- The bound variables, in name order. -/
def domain (b : Binding) : List Variable := b.entries.map (·.1)

/-! ## Adding entries -/

/-- The entries with a variable set to a term. -/
def insertEntry (v : Variable) (t : Term) : List (Variable × Term) → List (Variable × Term)
  | [] => [(v, t)]
  | (w, u) :: rest =>
    if v = w then (v, t) :: rest
    else if v.name < w.name then (v, t) :: (w, u) :: rest
    else (w, u) :: insertEntry v t rest

theorem mem_insertEntry {v : Variable} {t : Term} {e : Variable × Term}
    {entries : List (Variable × Term)} (h : e ∈ insertEntry v t entries) :
    e = (v, t) ∨ e ∈ entries := by
  induction entries with
  | nil => simpa [insertEntry] using h
  | cons head rest ih =>
    simp only [insertEntry] at h
    split at h
    · simp_all
      rcases h with h | h <;> simp [h]
    · split at h
      · simpa using h
      · rcases List.mem_cons.1 h with h | h
        · simp [h]
        · rcases ih h with h | h <;> simp [h]

theorem insertEntry_ordered (v : Variable) (t : Term) {entries : List (Variable × Term)}
    (h : EntriesOrdered entries) : EntriesOrdered (insertEntry v t entries) := by
  induction entries with
  | nil => exact List.pairwise_singleton ..
  | cons head rest ih =>
    obtain ⟨w, u⟩ := head
    obtain ⟨first, others⟩ := List.pairwise_cons.1 h
    simp only [insertEntry]
    split
    · next heq => exact List.pairwise_cons.2 ⟨heq ▸ first, others⟩
    · next hne =>
      split
      · next hlt =>
        refine List.pairwise_cons.2 ⟨fun e he => ?_, h⟩
        rcases List.mem_cons.1 he with rfl | he
        · exact hlt
        · exact String.lt_trans hlt (first e he)
      · next hge =>
        refine List.pairwise_cons.2 ⟨fun e he => ?_, ih others⟩
        rcases mem_insertEntry he with rfl | he
        · refine Decidable.byContradiction fun hle => hne ?_
          exact congrArg Variable.mk (String.le_antisymm hle hge)
        · exact first e he

/-- The binding with a variable set to a term. -/
def insert (b : Binding) (v : Variable) (t : Term) : Binding :=
  ⟨insertEntry v t b.entries, insertEntry_ordered v t b.ordered⟩

theorem find_insertEntry (v w : Variable) (t : Term) (entries : List (Variable × Term)) :
    find w (insertEntry v t entries) = if w = v then some t else find w entries := by
  induction entries with
  | nil => rfl
  | cons head rest ih =>
    obtain ⟨x, u⟩ := head
    simp only [insertEntry]
    split
    · next heq =>
      subst heq
      simp only [find]
      split <;> rfl
    · next hne =>
      split
      · simp only [find]
      · simp only [find, ih]
        by_cases hw : w = x
        · have hv : w ≠ v := fun h => hne (h ▸ hw)
          simp [hw, Ne.symm hne]
        · simp [hw]

@[simp] theorem get?_empty (w : Variable) : empty.get? w = none := rfl

@[simp] theorem get?_insert (b : Binding) (v w : Variable) (t : Term) :
    (b.insert v t).get? w = if w = v then some t else b.get? w :=
  find_insertEntry v w t b.entries

/-- The binding of a list of pairs; a later pair overrides an earlier one. -/
def ofPairs (pairs : List (Variable × Term)) : Binding :=
  pairs.foldl (fun b e => b.insert e.1 e.2) empty

/-- The binding of one variable. -/
def single (v : Variable) (t : Term) : Binding := empty.insert v t

/-! ## Extending and merging -/

/-- Two different terms for one variable: the one already there and the one refused. -/
structure Conflict where
  var : Variable
  present : Term
  refused : Term
deriving DecidableEq

/-- The text of a conflict. -/
def Conflict.message (c : Conflict) : String :=
  "incompatible binding for " ++ c.var.render ++ ": " ++ c.present.render ++ " vs " ++
    c.refused.render

/-- The binding with one more variable bound. A variable already bound keeps its term, which has
to be the same. -/
def extend (b : Binding) (v : Variable) (t : Term) : Except Conflict Binding :=
  match b.get? v with
  | some u => if u = t then .ok b else .error ⟨v, u, t⟩
  | none => .ok (b.insert v t)

/-- The binding extended by some entries, one after the other. -/
def extendAll (b : Binding) : List (Variable × Term) → Except Conflict Binding
  | [] => .ok b
  | (v, t) :: rest =>
    match b.extend v t with
    | .ok b => b.extendAll rest
    | .error c => .error c

/-- The two bindings, the smaller one first; of two equally large the left one. -/
def bySize (a b : Binding) : Binding × Binding := if a.size ≤ b.size then (a, b) else (b, a)

/-- The union of two bindings that agree on the variables they share. The larger one is extended
by the entries of the smaller one. -/
def merge (a b : Binding) : Except Conflict Binding :=
  let (small, large) := a.bySize b
  large.extendAll small.entries

/-- Whether two bindings agree on the variables they share. -/
def isCompatible (a b : Binding) : Bool :=
  let (small, large) := a.bySize b
  small.entries.all fun (v, t) => (large.get? v).all (· == t)

/-- The binding restricted to some variables. -/
def project (b : Binding) (vars : List Variable) : Binding where
  entries := b.entries.filter fun e => vars.contains e.1
  ordered := b.ordered.sublist List.filter_sublist

/-! ## Order and text -/

/-- Bindings entry by entry: by name, then by the structural order of terms. -/
def order (a b : Binding) : Ordering :=
  List.compareLex (compareLex (compareOn fun e => e.1.name) (compareOn fun e => e.2))
    a.entries b.entries

/-- The written form of a binding. -/
def render (b : Binding) : String :=
  "\x7b" ++ ", ".intercalate (b.entries.map fun (v, t) => v.render ++ "=" ++ t.render) ++ "\x7d"

end Binding

end TripleQuery
