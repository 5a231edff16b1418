import TripleQuery.Proofs.Flow.Basic
import TripleQuery.Proofs.Solutions.Join

/-!
# Flows under a limit

A limit on buffers can only cut a flow short. `Approx m f rows` says that the flow `f` gives out
`rows`, unless it fails before the end because a buffer has grown past the limit `m`; without a
limit there is no failure (`Approx.eq_ofRows`). Every operation on flows keeps to the operation on
lists that it stands for.
-/

namespace TripleQuery

open List

/-! ## Rows of joins -/

/-- The rows that a left row has come to in an optional join; the row itself if it has come to
none, neither among these nor before. -/
def orAlone (left : Binding) (matched : Bool) (kept : List Binding) : List Binding :=
  if matched || !kept.isEmpty then kept else [left]

theorem orAlone_cons (left : Binding) (matched : Bool) (b : Binding) (kept : List Binding) :
    orAlone left matched (b :: kept) = b :: orAlone left true kept := by
  simp [orAlone]

theorem tryRows_inner (left : Binding) (matched : Bool) (right : List Binding) :
    Flow.tryRows .inner none left matched right = mergeInto left right := by
  induction right generalizing matched with
  | nil => simp [Flow.tryRows]
  | cons b right ih =>
    rw [mergeInto_cons, Flow.tryRows, Binding.union?]
    cases left.merge b with
    | error c => exact ih matched
    | ok merged =>
      show merged :: Flow.tryRows .inner none left true right = merged :: mergeInto left right
      rw [ih]

theorem tryRows_left (condition : Option Expr) (left : Binding) (matched : Bool)
    (right : List Binding) :
    Flow.tryRows .left condition left matched right =
      orAlone left matched ((mergeInto left right).filter (admitsAll condition)) := by
  induction right generalizing matched with
  | nil => cases matched <;> rfl
  | cons b right ih =>
    rw [mergeInto_cons, Flow.tryRows, Binding.union?]
    cases left.merge b with
    | error c => exact ih matched
    | ok merged =>
      show (if admitsAll condition merged then
          merged :: Flow.tryRows .left condition left true right
        else Flow.tryRows .left condition left matched right) =
        orAlone left matched ((merged :: mergeInto left right).filter (admitsAll condition))
      by_cases ha : admitsAll condition merged
      · rw [if_pos ha, filter_cons_of_pos ha, orAlone_cons, ih]
      · rw [if_neg ha, filter_cons_of_neg ha, ih]

theorem optionalRows_eq (condition : Option Expr) (left : Binding) (right : List Binding) :
    optionalRows condition right left =
      orAlone left false ((mergeInto left right).filter (admitsAll condition)) := by
  unfold optionalRows orAlone
  cases (mergeInto left right).filter (admitsAll condition) <;> rfl

/-! ## Rows that have not been seen -/

section Unseen

variable {seen rows : List Binding} {b : Binding}

theorem eraseDups_unseen_of_mem (hb : seen.contains b = true) :
    ((b :: rows).filter fun a => !seen.contains a).eraseDups =
      (rows.filter fun a => !seen.contains a).eraseDups := by
  rw [filter_cons_of_neg (by rw [hb]; decide)]

theorem eraseDups_unseen_of_not_mem (hb : ¬ seen.contains b = true) :
    ((b :: rows).filter fun a => !seen.contains a).eraseDups =
      b :: (rows.filter fun a => !(b :: seen).contains a).eraseDups := by
  have hnew : (!seen.contains b) = true := by
    rw [eq_false_of_ne_true hb]
    rfl
  rw [filter_cons_of_pos (p := fun a => !seen.contains a) hnew, eraseDups_cons, filter_filter]
  congr 2
  refine filter_congr fun a _ => ?_
  rw [contains_cons, Bool.not_or]

end Unseen

/-! ## Approximation -/

/-- The flow gives out the rows, or fails on the way because `m` rows are too few for a buffer. -/
inductive Approx (m : Nat) : Flow → List Binding → Prop where
  | done : Approx m .done []
  | row (b : Binding) {f : Flow} {rows : List Binding} (h : Approx m f rows) :
    Approx m (.row b f) (b :: rows)
  | fail {rows : List Binding} (h : 0 < m) : Approx m (.fail (.tooLarge (m + 1) m)) rows

namespace Approx

variable {m : Nat}

theorem ofRows (rows : List Binding) : Approx m (.ofRows rows) rows := by
  induction rows with
  | nil => exact .done
  | cons b rows ih => exact .row b ih

/-- Without a limit the flow is all of the rows. -/
theorem eq_ofRows {f : Flow} {rows : List Binding} (h : Approx 0 f rows) : f = .ofRows rows := by
  induction h with
  | done => rfl
  | row b h ih => rw [Flow.ofRows, ih]
  | fail h => omega

/-- A flow that comes to its end has given out all of the rows. -/
theorem rows_eq_of_outcome {f : Flow} {rows bs : List Binding} (h : Approx m f rows)
    (ho : f.outcome = .value bs) : rows = bs := by
  have hend : f.fault? = none → f.rows = rows := by
    clear ho
    induction h with
    | done => intro _; rfl
    | row b h ih =>
      intro hf
      rw [Flow.rows, ih hf]
    | fail h => intro hf; cases hf
  unfold Flow.outcome at ho
  cases hf : f.fault? with
  | some e =>
    rw [hf] at ho
    cases ho
  | none =>
    rw [hf] at ho
    cases ho
    exact (hend hf).symm

/-! ## One flow after another -/

theorem append {f g : Flow} {as bs : List Binding} (hf : Approx m f as) (hg : Approx m g bs) :
    Approx m (f ++ g) (as ++ bs) := by
  induction hf with
  | done => exact hg
  | row b h ih => exact .row b ih
  | fail h => exact .fail h

theorem bind {f : Flow} {rows : List Binding} {k : Binding → Flow}
    {l : Binding → List Binding} (h : Approx m f rows) (hk : ∀ b, Approx m (k b) (l b)) :
    Approx m (f.bind k) (rows.flatMap l) := by
  induction h with
  | done => exact .done
  | row b h ih =>
    rw [flatMap_cons]
    exact (hk b).append ih
  | fail h => exact .fail h

theorem expand {f : Flow} {rows : List Binding} (h : Approx m f rows)
    (k : Binding → List Binding) : Approx m (f.expand k) (rows.flatMap k) :=
  h.bind fun b => .ofRows (k b)

theorem filter {f : Flow} {rows : List Binding} (h : Approx m f rows) (keep : Binding → Bool) :
    Approx m (f.filter keep) (rows.filter keep) := by
  rw [Flow.filter_eq_flatMap]
  exact h.expand _

theorem overAll {α : Type} {k : α → Flow} {l : α → List Binding} (items : List α)
    (hk : ∀ a, Approx m (k a) (l a)) : Approx m (.overAll items k) (items.flatMap l) := by
  induction items with
  | nil => exact .done
  | cons a items ih =>
    rw [flatMap_cons]
    exact (hk a).append ih

/-! ## Slices and duplicates -/

/-- A slice of a list, as it is taken from a flow. -/
theorem slice {f : Flow} {rows : List Binding} (h : Approx m f rows) (skip : Nat)
    (remaining : Option Nat) :
    Approx m (f.slice skip remaining) (remaining.elim (rows.drop skip) (rows.drop skip).take) := by
  induction h generalizing skip remaining with
  | done =>
    cases remaining with
    | none => simpa [Flow.slice] using Approx.done
    | some n => cases n <;> simpa [Flow.slice] using Approx.done
  | fail h =>
    cases remaining with
    | none => exact .fail h
    | some n =>
      cases n with
      | zero => simpa [Flow.slice] using Approx.done
      | succ n => exact .fail h
  | row b h ih =>
    cases skip with
    | succ skip =>
      cases remaining with
      | none => exact ih skip none
      | some n =>
        cases n with
        | zero => simpa [Flow.slice] using Approx.done
        | succ n => exact ih skip (some (n + 1))
    | zero =>
      cases remaining with
      | none => exact .row b (ih 0 none)
      | some n =>
        cases n with
        | zero => simpa [Flow.slice] using Approx.done
        | succ n => exact .row b (ih 0 (some n))

theorem fail_of_exceeds {size : Nat} {rows : List Binding} (hsize : 0 < m → size ≤ m)
    (h : exceeds (size + 1) m = true) : Approx m (.fail (.tooLarge (size + 1) m)) rows := by
  unfold exceeds at h
  rw [Bool.and_eq_true, decide_eq_true_eq, decide_eq_true_eq] at h
  obtain rfl : size = m := by have := hsize h.1; omega
  exact .fail h.1

theorem le_of_not_exceeds {size : Nat} (h : exceeds size m = false) : 0 < m → size ≤ m := by
  intro hm
  unfold exceeds at h
  rw [Bool.and_eq_false_iff, decide_eq_false_iff_not, decide_eq_false_iff_not] at h
  omega

theorem distinct {f : Flow} {rows : List Binding} (h : Approx m f rows) (seen : List Binding)
    (hseen : 0 < m → seen.length ≤ m) :
    Approx m (f.distinct m seen) (rows.filter fun b => !seen.contains b).eraseDups := by
  induction h generalizing seen with
  | done => exact .done
  | fail h => exact .fail h
  | @row b f rows h ih =>
    rw [Flow.distinct]
    by_cases hb : seen.contains b = true
    · rw [if_pos hb, eraseDups_unseen_of_mem hb]
      exact ih seen hseen
    · rw [if_neg hb, eraseDups_unseen_of_not_mem hb]
      cases he : exceeds (seen.length + 1) m with
      | true => exact fail_of_exceeds hseen he
      | false => exact .row b (ih (b :: seen) (le_of_not_exceeds he))

/-! ## Buffers -/

theorem limit {f : Flow} {rows : List Binding} (h : Approx m f rows) (size : Nat)
    (hsize : 0 < m → size ≤ m) : Approx m (f.limit m size) rows := by
  induction h generalizing size with
  | done => exact .done
  | fail h => exact .fail h
  | row b h ih =>
    rw [Flow.limit]
    cases he : exceeds (size + 1) m with
    | true => exact fail_of_exceeds hsize he
    | false => exact .row b (ih (size + 1) (le_of_not_exceeds he))

theorem gather {f : Flow} {rows results : List Binding} {k : List Binding → Flow}
    (h : Approx m f rows) (seen : List Binding) (hseen : 0 < m → seen.length ≤ m)
    (hk : Approx m (k (seen ++ rows)) results) : Approx m (f.gather m k seen) results := by
  induction h generalizing seen with
  | done => rwa [append_nil] at hk
  | fail h => exact .fail h
  | row b h ih =>
    rw [Flow.gather]
    cases he : exceeds (seen.length + 1) m with
    | true => exact fail_of_exceeds hseen he
    | false =>
      refine ih (seen ++ [b]) ?_ ?_
      · rw [length_append]
        exact le_of_not_exceeds he
      · rwa [append_assoc, singleton_append]

/-! ## Joins -/

theorem innerJoin {f g : Flow} {as bs : List Binding} (hf : Approx m f as) (hg : Approx m g bs) :
    Approx m (f.join m .inner none g) (joinRows as bs) := by
  refine hg.gather [] (fun _ => Nat.zero_le m) ?_
  unfold Flow.joinWith
  cases bs with
  | nil =>
    have hnil : joinRows as [] = [] := by simp [joinRows]
    rw [hnil]
    exact .done
  | cons b bs =>
    simp only [tryRows_inner]
    exact hf.expand _

theorem leftJoin {f g : Flow} {as bs : List Binding} (condition : Option Expr)
    (hf : Approx m f as) (hg : Approx m g bs) :
    Approx m (f.join m .left condition g) (as.flatMap (optionalRows condition bs)) := by
  refine hg.gather [] (fun _ => Nat.zero_le m) ?_
  have hrows : optionalRows condition bs =
      fun b => Flow.tryRows .left condition b false bs :=
    funext fun b => by rw [tryRows_left, optionalRows_eq]
  rw [hrows]
  exact hf.expand _

theorem probe {f : Flow} {rows : List Binding} (h : Approx m f rows) (condition : Option Expr)
    (left : Binding) (matched : Bool) :
    Approx m (f.probe condition left matched)
      (orAlone left matched (rows.filter (admitsAll condition))) := by
  induction h generalizing matched with
  | done =>
    cases matched with
    | true => exact .done
    | false => exact .row left .done
  | fail h => exact .fail h
  | row b h ih =>
    rw [Flow.probe]
    by_cases ha : admitsAll condition b
    · rw [if_pos ha, filter_cons_of_pos ha, orAlone_cons]
      exact .row b (ih true)
    · rw [if_neg ha, filter_cons_of_neg ha]
      exact ih matched

end Approx

end TripleQuery
