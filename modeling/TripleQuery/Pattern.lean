import TripleQuery.Binding.Basic

/-!
# Triple patterns and quads

A pattern has a term or a variable in each position. Stored data are quads: three terms and the
name of the graph they are in, none for the default graph.
-/

namespace TripleQuery

/-- A position of a pattern: a term that has to match, or a variable. -/
inductive TermPattern where
  | term (t : Term)
  | var (v : Variable)
deriving DecidableEq

namespace TermPattern

/-- The variable in the position, if there is one. -/
def asVariable? : TermPattern → Option Variable
  | .var v => some v
  | .term _ => none

/-- The variables in the position: one or none. -/
def vars (p : TermPattern) : List Variable := p.asVariable?.toList

/-- The term that the position stands for under a binding, if any. -/
def resolve (p : TermPattern) (b : Binding) : Option Term :=
  match p with
  | .term t => some t
  | .var v => b.get? v

/-- The written form of a position. -/
def render : TermPattern → String
  | .term t => t.render
  | .var v => v.render

end TermPattern

/-- A pattern for one triple. -/
structure TriplePattern where
  subject : TermPattern
  predicate : TermPattern
  object : TermPattern
deriving DecidableEq

namespace TriplePattern

/-- Subject, predicate and object. -/
def positions (p : TriplePattern) : List TermPattern := [p.subject, p.predicate, p.object]

/-- The variables of the pattern by position, with repetitions. -/
def vars (p : TriplePattern) : List Variable := p.positions.flatMap TermPattern.vars

/-- The written form of a pattern. -/
def render (p : TriplePattern) : String :=
  p.subject.render ++ " " ++ p.predicate.render ++ " " ++ p.object.render

end TriplePattern

/-- A stored triple and the graph it is in. -/
structure Quad where
  subject : Term
  predicate : Term
  object : Term
  graph : Option Term
deriving DecidableEq

namespace Quad

/-- Subject, predicate and object. -/
def terms (q : Quad) : List Term := [q.subject, q.predicate, q.object]

/-- Quads by graph, the default graph first, then by subject, predicate and object. -/
def order : Quad → Quad → Ordering :=
  compareLex (compareOn (·.graph))
    (compareLex (compareOn (·.subject))
      (compareLex (compareOn (·.predicate)) (compareOn (·.object))))

instance : Std.TransCmp order :=
  inferInstanceAs (Std.TransCmp (compareLex (compareOn graph)
    (compareLex (compareOn subject) (compareLex (compareOn predicate) (compareOn object)))))

instance : Std.LawfulEqCmp order where
  eq_of_compare {a b} h := by
    obtain ⟨s, p, o, g⟩ := a
    obtain ⟨s', p', o', g'⟩ := b
    simp only [order, compareLex, compareOn, Ordering.then_eq_eq] at h
    obtain ⟨hg, hs, hp, ho⟩ := h
    cases Std.LawfulEqOrd.eq_of_compare hg
    cases Std.LawfulEqOrd.eq_of_compare hs
    cases Std.LawfulEqOrd.eq_of_compare hp
    cases Std.LawfulEqOrd.eq_of_compare ho
    rfl

end Quad

/-- The quad's term for each position of a pattern has to equal a term there and to extend the
binding at a variable. -/
def Binding.matchAll (b : Binding) : List TermPattern → List Term → Option Binding
  | .var v :: ps, t :: ts =>
    match b.extend v t with
    | .ok b => b.matchAll ps ts
    | .error _ => none
  | .term u :: ps, t :: ts => if u = t then b.matchAll ps ts else none
  | _, _ => some b

end TripleQuery
