import TripleQuery.Exec.Step

/-!
# Expressions see their own variables

The value of an expression over a binding depends on the binding only at the variables that the
expression mentions. So a condition whose variables a row binds says the same of every row that
extends it.
-/

namespace TripleQuery

/-- Two bindings agree on some variables: each is unbound in both or bound to one term. -/
def Binding.SameOn (vars : List Variable) (a b : Binding) : Prop :=
  ∀ v ∈ vars, a.get? v = b.get? v

theorem Binding.SameOn.left {xs ys : List Variable} {a b : Binding}
    (h : Binding.SameOn (xs ++ ys) a b) : Binding.SameOn xs a b :=
  fun v hv => h v (List.mem_append_left ys hv)

theorem Binding.SameOn.right {xs ys : List Variable} {a b : Binding}
    (h : Binding.SameOn (xs ++ ys) a b) : Binding.SameOn ys a b :=
  fun v hv => h v (List.mem_append_right xs hv)

namespace Expr

/-- **Locality.** Bindings that agree on the variables of an expression give it one value, or one
failure. -/
theorem evaluate_congr {a b : Binding} (e : Expr) (h : Binding.SameOn e.mentions a b) :
    e.evaluate a = e.evaluate b := by
  fun_induction evaluate a e with
  | case1 v t hv =>
    have hb : b.get? v = some t := by rw [← h v (by simp [mentions]), hv]
    simp [evaluate, hb]
  | case2 v hv =>
    have hb : b.get? v = none := by rw [← h v (by simp [mentions]), hv]
    simp [evaluate, hb]
  | case3 t => rw [evaluate]
  | case4 v => simp [evaluate, Binding.contains, h v (by simp [mentions])]
  | case5 e ih => rw [evaluate, ih h]
  | case6 l r ihl ihr => rw [evaluate, ihl h.left, ihr h.right]
  | case7 l r ihl ihr => rw [evaluate, ihl h.left, ihr h.right]
  | case8 op l r err hl ihl => simp [evaluate, ← ihl h.left, hl]
  | case9 op l r x hl err hr ihl ihr =>
    simp [evaluate, ← ihl h.left, ← ihr h.right, hl, hr]
  | case10 op l r x hl y hr ihl ihr =>
    simp [evaluate, ← ihl h.left, ← ihr h.right, hl, hr]
  | case11 name args hf => simp [evaluate, hf]
  | case12 name f hf arg t harg ih =>
    have hb : Except.ok t = arg.evaluate b := by
      rw [← harg]
      exact ih fun v hv => h v (by simp [mentions, mentionsAll, hv])
    simp [evaluate, hf, ← hb]
  | case13 name f hf arg err harg ih =>
    have hb : Except.error err = arg.evaluate b := by
      rw [← harg]
      exact ih fun v hv => h v (by simp [mentions, mentionsAll, hv])
    simp [evaluate, hf, ← hb]
  | case14 name args f hf hargs => simp [evaluate, hf]

theorem test_congr {a b : Binding} (e : Expr) (h : Binding.SameOn e.mentions a b) :
    e.test a = e.test b := by
  rw [test, test, evaluate_congr e h]

theorem admits_congr {a b : Binding} (e : Expr) (h : Binding.SameOn e.mentions a b) :
    e.admits a = e.admits b := by
  rw [admits, admits, test_congr e h]

end Expr

end TripleQuery
