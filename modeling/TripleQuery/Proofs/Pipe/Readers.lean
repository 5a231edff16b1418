import TripleQuery.Proofs.Solutions.Basic
import TripleQuery.Proofs.Pipe.Step

/-!
# Open readers

A shared input counts its open readers, and the count goes by the releases that reach its scope.
`Pipe.readers` is the number of open readers of the scope around a pipeline, and `Counted` says that
every scope inside has the right count. A scope takes the releases among the events of its readers
in, and closes its input in the place of the last one (`settle_open`, `settle_last`).
-/

namespace TripleQuery

open List (perm_middle)
open scoped List

/-! ## Counting -/

/-- The number of releases among some events. -/
def releases (events : List Event) : Nat := events.countP Event.isRelease

@[simp] theorem releases_nil : releases [] = 0 := rfl

@[simp] theorem releases_append (xs ys : List Event) :
    releases (xs ++ ys) = releases xs + releases ys :=
  List.countP_append

theorem releases_cons_of_release {e : Event} (h : e.isRelease = true) (es : List Event) :
    releases (e :: es) = releases es + 1 :=
  List.countP_cons_of_pos h

theorem releases_cons_of_other {e : Event} (h : e.isRelease = false) (es : List Event) :
    releases (e :: es) = releases es :=
  List.countP_cons_of_neg (by rw [h]; exact Bool.false_ne_true)

theorem releases_eq_zero {events : List Event} (h : ∀ e ∈ events, e.isRelease = false) :
    releases events = 0 :=
  List.countP_eq_zero.2 fun e he => by rw [h e he]; exact Bool.false_ne_true

theorem releases_perm {xs ys : List Event} (h : xs ~ ys) : releases xs = releases ys :=
  h.countP_eq _

/-- The events that a scope passes on: all but the releases. -/
def unreleased (events : List Event) : List Event := events.filter fun e => !e.isRelease

@[simp] theorem releases_unreleased (events : List Event) : releases (unreleased events) = 0 := by
  refine releases_eq_zero fun e he => ?_
  simpa using (List.mem_filter.1 he).2

theorem unreleased_cons_of_release {e : Event} (h : e.isRelease = true) (es : List Event) :
    unreleased (e :: es) = unreleased es :=
  List.filter_cons_of_neg (by rw [h]; exact Bool.false_ne_true)

theorem unreleased_cons_of_other {e : Event} (h : e.isRelease = false) (es : List Event) :
    unreleased (e :: es) = e :: unreleased es :=
  List.filter_cons_of_pos (by rw [h]; rfl)

theorem unreleased_append (xs ys : List Event) :
    unreleased (xs ++ ys) = unreleased xs ++ unreleased ys :=
  List.filter_append ..

theorem unreleased_eq_self {events : List Event} (h : releases events = 0) :
    unreleased events = events :=
  List.filter_eq_self.2 fun e he => by
    rw [eq_false_of_ne_true (List.countP_eq_zero.1 h e he)]
    rfl

theorem releases_pos_iff {events : List Event} :
    0 < releases events ↔ events.any Event.isRelease = true := by
  rw [List.any_eq_true]
  exact List.countP_pos_iff

namespace Pipe

/-- The number of open readers of the scope that a pipeline stands in. -/
def readers : Pipe → Nat
  | bindings .. | script .. | concatEnd _ => 0
  | replay phase _ => if phase.isClosed then 0 else 1
  | share _ input _ | tracked _ _ input | scan _ _ _ _ input | filter _ _ input
  | optional _ _ _ _ input | graphs _ _ _ _ _ input | names _ _ _ _ input | table _ _ _ input
  | order _ _ _ input | project _ _ input | distinct _ _ _ input | slice _ _ _ input =>
    input.readers
  | join _ _ _ _ left right => left.readers + right.readers
  | probing _ _ _ _ _ probe input => probe.readers + input.readers
  | within _ _ _ _ _ inner input => inner.readers + input.readers
  | concat _ _ first rest => first.readers + rest.readers

/-- Every scope in the pipeline has counted its open readers, and has closed its input if there
are none; the operators that are yet to be compiled contain no extension. -/
def Counted : Pipe → Prop
  | bindings .. | script .. | replay .. | concatEnd _ => True
  | share shared input body =>
    (shared.openReaders = body.readers ∧ (shared.openReaders = 0 → input.readers = 0)) ∧
      input.Counted ∧ body.Counted
  | tracked _ _ input | scan _ _ _ _ input | filter _ _ input | names _ _ _ _ input
  | table _ _ _ input | order _ _ _ input | project _ _ input | distinct _ _ _ input
  | slice _ _ _ input => input.Counted
  | optional _ right _ _ input => right.Plain ∧ input.Counted
  | graphs _ _ sub _ _ input => sub.Plain ∧ input.Counted
  | join _ _ _ _ left right => left.Counted ∧ right.Counted
  | probing right _ _ _ _ probe input => right.Plain ∧ probe.Counted ∧ input.Counted
  | within _ sub _ _ _ inner input => sub.Plain ∧ inner.Counted ∧ input.Counted
  | concat _ _ first rest => first.Counted ∧ rest.Counted

end Pipe

/-! ## Closing -/

namespace SharedRows

variable (input : Pipe) (close : Unit → Pipe × List Event)

/-- As long as a reader is left, or none is released, the input stays open. -/
theorem settle_open (shared : SharedRows) {events : List Event}
    (h : releases events < shared.openReaders ∨ releases events = 0) :
    shared.settle input close events =
      ({ shared with openReaders := shared.openReaders - releases events }, input,
        unreleased events) := by
  induction events generalizing shared with
  | nil => rfl
  | cons e rest ih =>
    cases he : e.isRelease with
    | true =>
      rw [releases_cons_of_release he] at h ⊢
      have hrest : releases rest < shared.openReaders - 1 ∨ releases rest = 0 := by omega
      rw [settle, if_pos he, if_neg (by omega),
        ih { shared with openReaders := shared.openReaders - 1 } hrest,
        unreleased_cons_of_release he, Nat.sub_sub, Nat.add_comm 1]
    | false =>
      rw [releases_cons_of_other he] at h ⊢
      rw [settle, if_neg (by rw [he]; exact Bool.false_ne_true), ih shared h,
        unreleased_cons_of_other he]

/-- With the last reader the input is closed. -/
theorem settle_last (shared : SharedRows) {events : List Event}
    (h : releases events = shared.openReaders) (hpos : 0 < shared.openReaders) :
    ∃ more, more ~ (close ()).2 ++ unreleased events ∧ shared.settle input close events =
      ({ shared with openReaders := 0, rows := #[] }, (close ()).1, more) := by
  induction events generalizing shared with
  | nil =>
    rw [releases_nil] at h
    omega
  | cons e rest ih =>
    cases he : e.isRelease with
    | true =>
      rw [releases_cons_of_release he] at h
      rw [unreleased_cons_of_release he]
      by_cases hone : shared.openReaders ≤ 1
      · have hrest : releases rest = 0 := by omega
        refine ⟨(close ()).2 ++ unreleased rest, .refl _, ?_⟩
        rw [settle, if_pos he, if_pos hone]
        simp only [settle_open _ _ _ (Or.inr hrest), Nat.zero_sub]
      · have hrest : releases rest = shared.openReaders - 1 := by omega
        obtain ⟨more, hmore, hsettle⟩ :=
          ih { shared with openReaders := shared.openReaders - 1 } hrest
            (Nat.sub_pos_of_lt (Nat.lt_of_not_le hone))
        refine ⟨more, hmore, ?_⟩
        rw [settle, if_pos he, if_neg hone, hsettle]
    | false =>
      rw [releases_cons_of_other he] at h
      rw [unreleased_cons_of_other he]
      obtain ⟨more, hmore, hsettle⟩ := ih shared h hpos
      refine ⟨e :: more, (hmore.cons e).trans perm_middle.symm, ?_⟩
      rw [settle, if_neg (by rw [he]; exact Bool.false_ne_true), hsettle]

end SharedRows

end TripleQuery
