import TripleQuery.Proofs.Binding.Merge
import TripleQuery.Proofs.Expr.Locality

/-!
# Values persist in larger rows

A row that binds more variables can turn a failed evaluation into a value, and through the
connectives also one failure into another, but an expression that does not ask whether a variable
is bound keeps each value it has. The connectives are the point of the proof: a definite operand
decides whatever the other one is, so both are monotone when a failure counts as less than any
value (`bothTrue_persists`, `eitherTrue_persists`).

Together with locality this is `evaluation_local_and_stable`.
-/

namespace TripleQuery

/-! ## The variables of an expression -/

theorem mem_insertVariable {v w : Variable} {vars : List Variable} :
    v ∈ insertVariable w vars ↔ v = w ∨ v ∈ vars := by
  induction vars with
  | nil => simp [insertVariable]
  | cons x rest ih =>
    unfold insertVariable
    split
    · next heq => simp [heq]
    · split
      · simp
      · simp only [List.mem_cons, ih]
        exact or_left_comm

/-- Sorting the variables and dropping repetitions loses none and adds none. -/
theorem mem_variableSet {v : Variable} {vars : List Variable} :
    v ∈ variableSet vars ↔ v ∈ vars := by
  induction vars with
  | nil => simp [variableSet]
  | cons w rest ih =>
    show v ∈ insertVariable w (variableSet rest) ↔ v ∈ w :: rest
    rw [mem_insertVariable, ih, List.mem_cons]

/-! ## Outcomes -/

/-- If the first outcome is a value, the second is the same value. -/
def Persists {α : Type} (earlier later : Except EvalError α) : Prop :=
  ∀ x, earlier = .ok x → later = .ok x

namespace Persists

variable {α β : Type} {o o' : Except EvalError α}

theorem refl (o : Except EvalError α) : Persists o o := fun _ h => h

theorem of_error (e : EvalError) : Persists (.error e) o := by
  intro x h
  cases h

theorem map (h : Persists o o') (f : α → β) : Persists (o.map f) (o'.map f) := by
  intro y hy
  cases o with
  | error e => cases hy
  | ok x =>
    rw [h x rfl]
    exact hy

theorem truthOf {o o' : Except EvalError Term} (h : Persists o o') :
    Persists (Expr.truthOf o) (Expr.truthOf o') := by
  intro x hx
  cases o with
  | error e => cases hx
  | ok t =>
    rw [h t rfl]
    exact hx

end Persists

theorem bothTrue_false (o : Except EvalError Bool) : bothTrue o (.ok false) = .ok false := by
  rcases o with e | _ | _ <;> rfl

theorem eitherTrue_true (o : Except EvalError Bool) : eitherTrue o (.ok true) = .ok true := by
  rcases o with e | _ | _ <;> rfl

/-- A conjunction keeps its value: false came from an operand that is still false, and true from
two that are still true. -/
theorem bothTrue_persists {l l' r r' : Except EvalError Bool} (hl : Persists l l')
    (hr : Persists r r') : Persists (bothTrue l r) (bothTrue l' r') := by
  intro x hx
  match l, r with
  | .ok false, _ =>
    rw [hl false rfl]
    exact hx
  | .ok true, .ok true =>
    rw [hl true rfl, hr true rfl]
    exact hx
  | .ok true, .ok false | .error _, .ok false =>
    cases hx
    rw [hr false rfl]
    exact bothTrue_false l'
  | .ok true, .error _ | .error _, .ok true | .error _, .error _ => cases hx

/-- A disjunction keeps its value, for the dual reason. -/
theorem eitherTrue_persists {l l' r r' : Except EvalError Bool} (hl : Persists l l')
    (hr : Persists r r') : Persists (eitherTrue l r) (eitherTrue l' r') := by
  intro x hx
  match l, r with
  | .ok true, _ =>
    rw [hl true rfl]
    exact hx
  | .ok false, .ok false =>
    rw [hl false rfl, hr false rfl]
    exact hx
  | .ok false, .ok true | .error _, .ok true =>
    cases hx
    rw [hr true rfl]
    exact eitherTrue_true l'
  | .ok false, .error _ | .error _, .ok false | .error _, .error _ => cases hx

/-! ## Evaluation -/

namespace Expr

mutual
/-- The expression asks nowhere whether a variable is bound. -/
def BoundFree : Expr → Prop
  | .var _ => True
  | .const _ => True
  | .bound _ => False
  | .not e => e.BoundFree
  | .and l r => l.BoundFree ∧ r.BoundFree
  | .or l r => l.BoundFree ∧ r.BoundFree
  | .compare _ l r => l.BoundFree ∧ r.BoundFree
  | .call _ args => AllBoundFree args

/-- None of the expressions asks whether a variable is bound. -/
def AllBoundFree : List Expr → Prop
  | [] => True
  | e :: rest => e.BoundFree ∧ AllBoundFree rest
end

/-- **Stability.** An expression without a test for being bound keeps its value in every larger
row. -/
theorem evaluate_persists {a b : Binding} (h : a.Extends b) (e : Expr) (he : e.BoundFree) :
    Persists (e.evaluate a) (e.evaluate b) := by
  fun_induction evaluate a e with
  | case1 v t hv =>
    have hb : b.get? v = some t := h v t hv
    simp [evaluate, hb, Persists.refl]
  | case2 v hv => exact .of_error _
  | case3 t =>
    rw [evaluate]
    exact .refl _
  | case4 v => exact he.elim
  | case5 e ih =>
    rw [evaluate]
    exact (ih he).truthOf.map _
  | case6 l r ihl ihr =>
    rw [evaluate]
    exact (bothTrue_persists (ihl he.1).truthOf (ihr he.2).truthOf).map _
  | case7 l r ihl ihr =>
    rw [evaluate]
    exact (eitherTrue_persists (ihl he.1).truthOf (ihr he.2).truthOf).map _
  | case8 op l r err hl ihl => exact .of_error _
  | case9 op l r x hl err hr ihl ihr => exact .of_error _
  | case10 op l r x hl y hr ihl ihr =>
    have hlb : l.evaluate b = .ok x := ihl he.1 x hl
    have hrb : r.evaluate b = .ok y := ihr he.2 y hr
    simp [evaluate, hlb, hrb, Persists.refl]
  | case11 name args hf => exact .of_error _
  | case12 name f hf arg t harg ih =>
    have hb : arg.evaluate b = .ok t := ih he.1 t harg
    simp [evaluate, hf, hb, Persists.refl]
  | case13 name f hf arg err harg ih => exact .of_error _
  | case14 name args f hf hargs => exact .of_error _

/-- **Evaluation sees the variables of the expression only, and more bindings do not change a
value.** Rows that agree on every variable of the expression give it the same value or the same
failure, and the same truth value. If the expression has no test for being bound, each value and
each truth value it has over a row it has over every row that extends it. -/
theorem evaluation_local_and_stable (e : Expr) :
    (∀ a b : Binding, (∀ v ∈ variableSet e.mentions, a.get? v = b.get? v) →
      e.evaluate a = e.evaluate b ∧ e.test a = e.test b) ∧
    (e.BoundFree → ∀ a b : Binding, a.Extends b →
      (∀ t, e.evaluate a = .ok t → e.evaluate b = .ok t) ∧
        ∀ x, e.test a = .ok x → e.test b = .ok x) := by
  constructor
  · intro a b h
    have hsame : Binding.SameOn e.mentions a b := fun v hv => h v (mem_variableSet.2 hv)
    exact ⟨evaluate_congr e hsame, test_congr e hsame⟩
  · intro he a b h
    have hpersists : Persists (e.evaluate a) (e.evaluate b) := evaluate_persists h e he
    exact ⟨hpersists, hpersists.truthOf⟩

namespace Instance

/-- A condition whose first operand fails as long as its variable is unbound. -/
def lenient : Expr :=
  .or (.compare .eq (.var ⟨"u"⟩) (.const (.iri "b")))
    (.compare .eq (.var ⟨"x"⟩) (.const (.iri "a")))

/-- A row that leaves the first operand of `lenient` without a value. -/
def narrow : Binding := .single ⟨"x"⟩ (.iri "a")

/-- A larger row, over which both operands have values. -/
def wide : Binding := narrow.insert ⟨"u"⟩ (.iri "c")

theorem narrow_extends_wide : narrow.Extends wide := by
  intro v t h
  by_cases hv : v = ⟨"u"⟩
  · subst hv
    cases h
  · simpa [wide, hv] using h

end Instance

open Instance in
theorem evaluation_local_and_stable_lenient :
    (∀ v ∈ variableSet lenient.mentions,
        narrow.get? v = (narrow.insert ⟨"y"⟩ (.iri "b")).get? v) ∧
      lenient.BoundFree ∧ narrow.Extends wide ∧
      (Expr.compare .eq (.var ⟨"u"⟩) (.const (.iri "b"))).test narrow = .error (.unbound ⟨"u"⟩) ∧
      lenient.test narrow = lenient.test (narrow.insert ⟨"y"⟩ (.iri "b")) ∧
      lenient.test narrow = .ok true ∧ lenient.test wide = .ok true := by
  have hsame : ∀ v ∈ variableSet lenient.mentions,
      narrow.get? v = (narrow.insert ⟨"y"⟩ (.iri "b")).get? v := by decide
  have hfree : lenient.BoundFree := ⟨⟨trivial, trivial⟩, trivial, trivial⟩
  have htrue : lenient.test narrow = .ok true := rfl
  obtain ⟨hlocal, hstable⟩ := evaluation_local_and_stable lenient
  exact ⟨hsame, hfree, narrow_extends_wide, rfl, (hlocal _ _ hsame).2, htrue,
    (hstable hfree _ _ narrow_extends_wide).2 true htrue⟩

end Expr

end TripleQuery
