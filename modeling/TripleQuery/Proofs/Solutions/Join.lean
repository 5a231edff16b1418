import Mathlib.Data.List.Perm.Basic
import TripleQuery.Proofs.Solutions.Basic

/-!
# The algebra of joins

Joining lists of rows is commutative up to order and associative. The notion behind the evaluation
of joins by substitution is `Factors`: a function from a row to rows factors out merging if a row
that was merged into its argument can as well be merged into its results.
-/

namespace TripleQuery

open List

/-! ## Merging a row into rows -/

@[simp] theorem mergeInto_nil (s : Binding) : mergeInto s [] = [] := rfl

theorem mergeInto_cons (s a : Binding) (rows : List Binding) :
    mergeInto s (a :: rows) = (s.union? a).toList ++ mergeInto s rows := by
  unfold mergeInto
  rw [filterMap_cons]
  cases s.union? a <;> rfl

theorem mergeInto_append (s : Binding) (as bs : List Binding) :
    mergeInto s (as ++ bs) = mergeInto s as ++ mergeInto s bs :=
  filterMap_append

@[simp] theorem mergeInto_empty (rows : List Binding) : mergeInto .empty rows = rows := by
  unfold mergeInto
  have h : Binding.empty.union? = some := funext Binding.empty_union?
  rw [h, filterMap_some]

theorem mem_mergeInto {s m : Binding} {rows : List Binding} :
    m ∈ mergeInto s rows ↔ ∃ a ∈ rows, s.union? a = some m :=
  mem_filterMap

@[simp] theorem joinRows_nil (bs : List Binding) : joinRows [] bs = [] := rfl

theorem joinRows_cons (a : Binding) (as bs : List Binding) :
    joinRows (a :: as) bs = mergeInto a bs ++ joinRows as bs :=
  flatMap_cons

@[simp] theorem joinRows_singleton (a : Binding) (bs : List Binding) :
    joinRows [a] bs = mergeInto a bs := by
  rw [joinRows_cons, joinRows_nil, append_nil]

/-- The row that binds nothing is neutral. -/
theorem joinRows_unit (bs : List Binding) : joinRows [.empty] bs = bs := by
  rw [joinRows_singleton, mergeInto_empty]

theorem mergeInto_unit (s : Binding) : mergeInto s [.empty] = [s] := by
  simp [mergeInto_cons]

/-! ## Functions that factor out merging -/

/-- Merging a row into the argument of the function comes to merging it into the result. -/
def Lifts (f : Binding → Option Binding) : Prop :=
  ∀ s a : Binding, (s.union? a).bind f = (f a).bind s.union?

/-- Merging a row into the argument of the function comes to merging it into the results. -/
def Factors (f : Binding → List Binding) : Prop :=
  ∀ s a : Binding, (s.union? a).toList.flatMap f = mergeInto s (f a)

theorem lifts_some : Lifts some := by
  intro s a
  rw [Option.bind_fun_some, Option.bind_some]

theorem Lifts.bind {f g : Binding → Option Binding} (hf : Lifts f) (hg : Lifts g) :
    Lifts fun a => (f a).bind g := by
  intro s a
  calc (s.union? a).bind (fun m => (f m).bind g)
      = ((s.union? a).bind f).bind g := (Option.bind_assoc ..).symm
    _ = ((f a).bind s.union?).bind g := by rw [hf]
    _ = (f a).bind fun b => (s.union? b).bind g := Option.bind_assoc ..
    _ = (f a).bind fun b => (g b).bind s.union? := by simp only [hg s]
    _ = ((f a).bind g).bind s.union? := (Option.bind_assoc ..).symm

theorem lifts_union? (b : Binding) : Lifts fun a => a.union? b :=
  fun s a => Binding.union?_bind_assoc s a b

theorem lifts_extend (v : Variable) (t : Term) : Lifts fun a => (a.extend v t).toOption := by
  simp only [← Binding.union?_single]
  exact lifts_union? _

theorem lifts_none : Lifts fun _ => none := by
  intro s a
  rw [Option.bind_fun_none]
  rfl

theorem mergeInto_toList (s : Binding) (a : Option Binding) :
    mergeInto s a.toList = (a.bind s.union?).toList := by
  cases a with
  | none => rfl
  | some a => rw [Option.toList_some, mergeInto_cons, mergeInto_nil, append_nil, Option.bind_some]

theorem Lifts.factors {f : Binding → Option Binding} (h : Lifts f) :
    Factors fun a => (f a).toList := by
  intro s a
  rw [mergeInto_toList, ← h]
  cases s.union? a with
  | none => rfl
  | some m => exact flatMap_singleton ..

/-- A function that tries a row against a list of things, one after the other. -/
theorem Factors.overAll {α : Type} (items : List α) {f : α → Binding → List Binding}
    (h : ∀ i, Factors (f i)) : Factors fun a => items.flatMap fun i => f i a := by
  intro s a
  have hitem : ∀ i, mergeInto s (f i a) = (s.union? a).toList.flatMap (f i) := fun i =>
    (h i s a).symm
  have hmerge : mergeInto s (items.flatMap fun i => f i a) =
      items.flatMap fun i => mergeInto s (f i a) := by
    unfold mergeInto
    rw [filterMap_flatMap]
  rw [hmerge]
  simp only [hitem]
  cases s.union? a with
  | none => simp
  | some m => simp

theorem Factors.filterMap {α : Type} (items : List α) {f : α → Binding → Option Binding}
    (h : ∀ i, Lifts (f i)) : Factors fun a => items.filterMap fun i => f i a := by
  simp only [filterMap_eq_flatMap_toList]
  exact Factors.overAll items fun i => (h i).factors

theorem factors_mergeInto (rows : List Binding) : Factors fun a => mergeInto a rows :=
  Factors.filterMap rows lifts_union?

/-- What factors out merging row by row does so for a list of rows. -/
theorem Factors.flatMap_mergeInto {f : Binding → List Binding} (h : Factors f) (s : Binding)
    (rows : List Binding) : (mergeInto s rows).flatMap f = mergeInto s (rows.flatMap f) := by
  induction rows with
  | nil => rfl
  | cons a rows ih =>
    rw [mergeInto_cons, flatMap_append, h, ih, flatMap_cons, mergeInto_append]

theorem Factors.flatMap {f g : Binding → List Binding} (hf : Factors f) (hg : Factors g) :
    Factors fun a => (f a).flatMap g := by
  intro s a
  calc (s.union? a).toList.flatMap (fun m => (f m).flatMap g)
      = ((s.union? a).toList.flatMap f).flatMap g := flatMap_assoc.symm
    _ = (mergeInto s (f a)).flatMap g := by rw [hf]
    _ = mergeInto s ((f a).flatMap g) := hg.flatMap_mergeInto s (f a)

/-- A row can be merged into the left side of a join or into the result. -/
theorem joinRows_mergeInto (s : Binding) (as bs : List Binding) :
    joinRows (mergeInto s as) bs = mergeInto s (joinRows as bs) :=
  (factors_mergeInto bs).flatMap_mergeInto s as

/-! ## Order -/

theorem joinRows_right_cons (as : List Binding) (b : Binding) (bs : List Binding) :
    joinRows as (b :: bs) ~ mergeInto b as ++ joinRows as bs := by
  have hsplit : joinRows as (b :: bs) =
      as.flatMap fun a => (b.union? a).toList ++ mergeInto a bs := by
    unfold joinRows
    simp only [mergeInto_cons, fun a => Binding.union?_comm a b]
  have hleft : mergeInto b as = as.flatMap fun a => (b.union? a).toList := by
    unfold mergeInto
    rw [filterMap_eq_flatMap_toList]
  rw [hsplit, hleft]
  exact (flatMap_append_perm as _ _).symm

/-- **Joins commute** up to the order of rows. -/
theorem joinRows_comm (as bs : List Binding) : joinRows as bs ~ joinRows bs as := by
  induction bs with
  | nil =>
    have hnil : joinRows as [] = [] := by simp [joinRows]
    rw [hnil, joinRows_nil]
  | cons b bs ih =>
    rw [joinRows_cons]
    exact (joinRows_right_cons as b bs).trans (ih.append_left _)

end TripleQuery
