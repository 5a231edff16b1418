import Mathlib.Control.Monad.Basic
import TripleQuery.Proofs.Expr.Comparison

/-!
# Connectives and bracketing

A conjunction or a disjunction of any number of operands can be nested in many ways. What it comes
to depends only on the outcomes of the operands, from left to right: a definite answer of one
decides, whatever fails beside it, and otherwise the leftmost failure is the one reported
(`verdict`).

Either connective is the verdict on its two operands, with a deciding value of its own, so two laws
of verdicts carry the whole argument. A verdict on verdicts is the verdict on everything below them
(`verdict_append`), from which every nest follows by induction. And to negate a verdict is to negate
the outcomes and let the other value decide (`negated_verdict`), which is De Morgan's law with the
failures in place. The main result is `connectives_disregard_bracketing`.
-/

namespace TripleQuery

/-! ## Verdicts -/

/-- The failure of an outcome, if it is one. -/
def failure? : Except EvalError Bool → Option EvalError
  | .error e => some e
  | .ok _ => none

/-- What a list of outcomes comes to when one truth value decides: that value if it is among them,
else the first failure, else the other value. -/
def verdict (decisive : Bool) (outcomes : List (Except EvalError Bool)) : Except EvalError Bool :=
  if .ok decisive ∈ outcomes then .ok decisive
  else
    match outcomes.findSome? failure? with
    | some e => .error e
    | none => .ok !decisive

section

variable {decisive : Bool} {xs ys : List (Except EvalError Bool)}

theorem verdict_of_mem (h : .ok decisive ∈ xs) : verdict decisive xs = .ok decisive := if_pos h

theorem verdict_singleton (decisive : Bool) (outcome : Except EvalError Bool) :
    verdict decisive [outcome] = outcome := by
  rcases outcome with e | _ | _ <;> cases decisive <;> rfl

/-- Without a deciding outcome, two lists with one first failure come to the same. -/
theorem verdict_congr (hx : .ok decisive ∉ xs) (hy : .ok decisive ∉ ys)
    (h : xs.findSome? failure? = ys.findSome? failure?) :
    verdict decisive xs = verdict decisive ys := by
  rw [verdict, verdict, if_neg hx, if_neg hy, h]

/-- Without a deciding outcome, the verdict fails as the first failure does. -/
theorem failure?_verdict (h : .ok decisive ∉ xs) :
    failure? (verdict decisive xs) = xs.findSome? failure? := by
  rw [verdict, if_neg h]
  cases xs.findSome? failure? <;> rfl

/-- The verdict is the deciding value only if an outcome is. -/
theorem verdict_eq_decisive_iff : verdict decisive xs = .ok decisive ↔ .ok decisive ∈ xs := by
  refine ⟨fun h => ?_, verdict_of_mem⟩
  by_contra hx
  rw [verdict, if_neg hx] at h
  cases hfirst : xs.findSome? failure? with
  | some e => simp [hfirst] at h
  | none => simp [hfirst] at h

/-- **A verdict on two verdicts is the verdict on all outcomes below them.** A deciding outcome of
either list survives the inner verdict, and so does the first failure of a list without one. -/
theorem verdict_append (decisive : Bool) (xs ys : List (Except EvalError Bool)) :
    verdict decisive (xs ++ ys) = verdict decisive [verdict decisive xs, verdict decisive ys] := by
  have hmem : .ok decisive ∈ [verdict decisive xs, verdict decisive ys] ↔
      .ok decisive ∈ xs ++ ys := by
    simp [eq_comm (a := Except.ok decisive), verdict_eq_decisive_iff]
  by_cases h : .ok decisive ∈ xs ++ ys
  · rw [verdict_of_mem h, verdict_of_mem (hmem.2 h)]
  · obtain ⟨hx, hy⟩ := not_or.1 (mt List.mem_append.2 h)
    refine verdict_congr h (mt hmem.1 h) ?_
    calc (xs ++ ys).findSome? failure?
        = (xs.findSome? failure?).or (ys.findSome? failure?) := List.findSome?_append
      _ = (failure? (verdict decisive xs)).or (failure? (verdict decisive ys)) := by
        rw [failure?_verdict hx, failure?_verdict hy]
      _ = ([verdict decisive xs] ++ [verdict decisive ys]).findSome? failure? := by
        rw [List.findSome?_append, List.findSome?_singleton, List.findSome?_singleton]

end

/-! ## Negation -/

/-- The outcome with its truth value negated; a failure stays as it is. -/
def negated (outcome : Except EvalError Bool) : Except EvalError Bool := outcome.map (!·)

theorem failure?_negated (outcome : Except EvalError Bool) :
    failure? (negated outcome) = failure? outcome := by
  cases outcome <;> rfl

theorem negated_negated (outcome : Except EvalError Bool) :
    negated (negated outcome) = outcome := by
  rcases outcome with e | _ | _ <;> rfl

theorem ok_mem_map_negated {x : Bool} {outcomes : List (Except EvalError Bool)} :
    .ok (!x) ∈ outcomes.map negated ↔ .ok x ∈ outcomes := by
  rw [List.mem_map]
  constructor
  · rintro ⟨outcome, hmem, hneg⟩
    have h : outcome = .ok x := by
      rw [← negated_negated outcome, hneg]
      exact congrArg Except.ok (Bool.not_not x)
    exact h ▸ hmem
  · exact fun hmem => ⟨_, hmem, rfl⟩

/-- **De Morgan's law for verdicts.** To negate a verdict is to negate the outcomes and to let the
other value decide; the first failure is the same one. -/
theorem negated_verdict (decisive : Bool) (outcomes : List (Except EvalError Bool)) :
    negated (verdict decisive outcomes) = verdict (!decisive) (outcomes.map negated) := by
  have hfirst : (outcomes.map negated).findSome? failure? = outcomes.findSome? failure? := by
    rw [List.findSome?_map]
    exact congrArg (outcomes.findSome? ·) (funext failure?_negated)
  unfold verdict
  rw [hfirst]
  by_cases h : .ok decisive ∈ outcomes
  · rw [if_pos h, if_pos (ok_mem_map_negated.2 h)]
    rfl
  · rw [if_neg h, if_neg (mt ok_mem_map_negated.1 h)]
    cases outcomes.findSome? failure? <;> rfl

/-! ## The connectives -/

theorem bothTrue_eq_verdict (l r : Except EvalError Bool) :
    bothTrue l r = verdict false [l, r] := by
  rcases l with e | _ | _ <;> rcases r with e' | _ | _ <;> rfl

theorem eitherTrue_eq_verdict (l r : Except EvalError Bool) :
    eitherTrue l r = verdict true [l, r] := by
  rcases l with e | _ | _ <;> rcases r with e' | _ | _ <;> rfl

namespace Expr

/-- A truth value made a term is read back as it was. -/
theorem truthOf_map_boolean (outcome : Except EvalError Bool) :
    truthOf (outcome.map .boolean) = outcome := by
  cases outcome with
  | error e => rfl
  | ok x => exact truthValue_boolean x

section

variable (b : Binding) (e l r : Expr)

theorem evaluate_not : (Expr.not e).evaluate b = (negated (e.test b)).map .boolean := by
  rw [evaluate, ← test]
  cases e.test b <;> rfl

theorem evaluate_and :
    (Expr.and l r).evaluate b = (verdict false [l.test b, r.test b]).map .boolean := by
  rw [evaluate, bothTrue_eq_verdict, ← test, ← test]

theorem evaluate_or :
    (Expr.or l r).evaluate b = (verdict true [l.test b, r.test b]).map .boolean := by
  rw [evaluate, eitherTrue_eq_verdict, ← test, ← test]

theorem test_not : (Expr.not e).test b = negated (e.test b) := by
  rw [test, evaluate_not, truthOf_map_boolean]

theorem test_and : (Expr.and l r).test b = verdict false [l.test b, r.test b] := by
  rw [test, evaluate_and, truthOf_map_boolean]

theorem test_or : (Expr.or l r).test b = verdict true [l.test b, r.test b] := by
  rw [test, evaluate_or, truthOf_map_boolean]

/-- Of two connectives with opposite deciding values, the negation of the one is the other of the
negated operands. -/
theorem evaluate_not_swap {decisive : Bool} {connective dual : Expr → Expr → Expr}
    (h : ∀ x y, (connective x y).test b = verdict decisive [x.test b, y.test b])
    (hdual : ∀ x y, (dual x y).evaluate b =
      (verdict (!decisive) [x.test b, y.test b]).map .boolean) :
    (Expr.not (connective l r)).evaluate b = (dual (.not l) (.not r)).evaluate b := by
  rw [evaluate_not, h, negated_verdict, hdual, test_not, test_not]
  rfl

end

end Expr

/-! ## Nests -/

/-- A way of bracketing one operand or more. -/
inductive Nest where
  | operand (e : Expr)
  | pair (l r : Nest)

namespace Nest

/-- The operands from left to right. -/
def operands : Nest → List Expr
  | operand e => [e]
  | pair l r => l.operands ++ r.operands

/-- The operands joined by a connective, bracketed as the nest says. -/
def join (connective : Expr → Expr → Expr) : Nest → Expr
  | operand e => e
  | pair l r => connective (l.join connective) (r.join connective)

/-- A connective that is the verdict on its two operands makes of every nest the verdict on all of
its operands. -/
theorem test_join {connective : Expr → Expr → Expr} {decisive : Bool} {b : Binding}
    (h : ∀ l r, (connective l r).test b = verdict decisive [l.test b, r.test b]) (n : Nest) :
    (n.join connective).test b = verdict decisive (n.operands.map (Expr.test b)) := by
  induction n with
  | operand e => exact (verdict_singleton decisive (e.test b)).symm
  | pair l r ihl ihr =>
    rw [join, h, ihl, ihr, operands, List.map_append, verdict_append]

end Nest

namespace Expr

/-- **What nested connectives come to does not depend on the bracketing.** However one operand or
more are bracketed into conjunctions, the nest tests as false if an operand does, else as the
leftmost operand that fails, else as true; and dually for disjunctions. The negation of a
conjunction has the value, or the failure, of the disjunction of the negations, and the negation of
a disjunction that of the conjunction of the negations. -/
theorem connectives_disregard_bracketing (b : Binding) :
    (∀ n : Nest, (n.join .and).test b = verdict false (n.operands.map (test b))) ∧
    (∀ n : Nest, (n.join .or).test b = verdict true (n.operands.map (test b))) ∧
    ∀ l r : Expr,
      (Expr.not (.and l r)).evaluate b = (Expr.or (.not l) (.not r)).evaluate b ∧
      (Expr.not (.or l r)).evaluate b = (Expr.and (.not l) (.not r)).evaluate b :=
  ⟨Nest.test_join (test_and b), Nest.test_join (test_or b), fun l r =>
    ⟨evaluate_not_swap b l r (test_and b) (evaluate_or b),
      evaluate_not_swap b l r (test_or b) (evaluate_and b)⟩⟩

-- A false operand decides although both operands before it fail; with a true one in its place the
-- first of the two failures is left, and so it is if the last two operands are paired first.
example (x : Bool) (u v : Variable) :
    ((Nest.pair (.pair (.operand (.var u)) (.operand (.var v)))
      (.operand (.const (.boolean x)))).join .and).test .empty =
        if x then .error (.unbound u) else .ok false := by
  cases x <;> rfl

example (u v : Variable) :
    ((Nest.pair (.operand (.var u)) (.pair (.operand (.var v))
      (.operand (.const (.boolean true))))).join .and).test .empty = .error (.unbound u) := rfl

end Expr

end TripleQuery
