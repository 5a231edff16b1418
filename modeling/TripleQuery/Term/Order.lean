import TripleQuery.Term.Value

/-!
# Orders on terms

Three orders. `Term.order` is the structural one that stored triples and bindings are sorted by.
`Term.valueOrder?` compares by value and is partial; the comparison operators use it.
`Term.sortOrder` is total on optional terms and is what a sort uses: it follows the values where
they exist and falls back to the written parts.
-/

namespace TripleQuery

/-! ## Structural order -/

/-- Literals by lexical form, then datatype, then language tag. -/
def Literal.order : Literal → Literal → Ordering :=
  compareLex (compareOn (·.lexical)) (compareLex (compareOn (·.datatype)) (compareOn (·.language)))

instance : Ord Literal := ⟨Literal.order⟩

instance : Std.TransOrd Literal :=
  inferInstanceAs (Std.TransCmp (compareLex (compareOn Literal.lexical)
    (compareLex (compareOn Literal.datatype) (compareOn Literal.language))))

instance : Std.LawfulEqOrd Literal where
  eq_of_compare {a b} h := by
    obtain ⟨x, d, l⟩ := a
    obtain ⟨y, e, m⟩ := b
    change Literal.order _ _ = .eq at h
    simp only [Literal.order, compareLex, compareOn, Ordering.then_eq_eq] at h
    obtain ⟨hx, hd, hl⟩ := h
    cases Std.LawfulEqOrd.eq_of_compare hx
    cases Std.LawfulEqOrd.eq_of_compare hd
    cases Std.LawfulEqOrd.eq_of_compare hl
    rfl

/-- Blank nodes before IRIs before literals, each kind by its parts. -/
def Term.order : Term → Term → Ordering
  | .blank a, .blank b => compare a b
  | .blank _, _ => .lt
  | _, .blank _ => .gt
  | .iri a, .iri b => compare a b
  | .iri _, _ => .lt
  | _, .iri _ => .gt
  | .literal a, .literal b => compare a b

instance : Ord Term := ⟨Term.order⟩

instance : Std.TransOrd Term where
  eq_swap {a b} := by
    change a.order b = (b.order a).swap
    cases a <;> cases b <;> first | exact Std.OrientedOrd.eq_swap | rfl
  isLE_trans {a b c} := by
    change (a.order b).isLE → (b.order c).isLE → (a.order c).isLE
    cases a <;> cases b <;> cases c <;>
      first | exact Std.TransOrd.isLE_trans | simp [Term.order]

instance : Std.LawfulEqOrd Term where
  eq_of_compare {a b} h := by
    change a.order b = .eq at h
    cases a <;> cases b <;> simp only [Term.order, reduceCtorEq] at h <;>
      exact congrArg _ (Std.LawfulEqOrd.eq_of_compare h)

/-! ## Order by value -/

/-- Literals by value: numbers numerically, strings with the same tag by code points, booleans
false first. Literals of one other datatype and tag only compare equal, when identical. -/
def Literal.valueOrder? (a b : Literal) : Option Ordering :=
  if a.isNumeric && b.isNumeric then
    a.number?.bind fun x => b.number?.bind fun y => x.compare? y
  else if a.isString && b.isString && a.language == b.language then
    some (compare a.lexical b.lexical)
  else if a.datatype = Datatype.boolean ∧ b.datatype = Datatype.boolean then
    a.truth?.bind fun x => b.truth?.map fun y => compare x y
  else if a.datatype = b.datatype ∧ a.language = b.language then
    if a.lexical = b.lexical then some .eq else none
  else none

/-- Terms by value: only literals have one. -/
def Term.valueOrder? : Term → Term → Option Ordering
  | .literal a, .literal b => a.valueOrder? b
  | _, _ => none

/-! ## Sort order -/

/-- What kind of value a literal is sorted as. -/
inductive Literal.SortClass where
  | number
  | string
  | boolean
  | other
deriving DecidableEq

namespace Literal

/-- Numbers before strings before booleans before everything else. -/
def SortClass.rank : SortClass → Nat
  | .number => 0
  | .string => 1
  | .boolean => 2
  | .other => 3

/-- The sort class of a literal. Malformed numbers and booleans are among the rest, unless a
language tag makes them strings. -/
def sortClass (l : Literal) : SortClass :=
  if l.number?.isSome then .number
  else if l.isString then .string
  else if l.truth?.isSome then .boolean
  else .other

/-- The order of the values of two literals, as far as they have any of one kind. -/
def denotedOrder (a b : Literal) : Ordering :=
  match a.number?, b.number? with
  | some x, some y => x.totalCompare y
  | _, _ =>
    match a.truth?, b.truth? with
    | some x, some y => compare x y
    | _, _ => .eq

/-- Literals by sort class, then by value, then by datatype, lexical form and language tag. -/
def sortOrder (a b : Literal) : Ordering :=
  (compare a.sortClass.rank b.sortClass.rank).then
    ((denotedOrder a b).then
      ((compare a.datatype b.datatype).then
        ((compare a.lexical b.lexical).then (compare a.language b.language))))

end Literal

/-- Terms for sorting: like the structural order, but literals by value. -/
def Term.sortOrder : Term → Term → Ordering
  | .literal a, .literal b => a.sortOrder b
  | a, b => a.order b

/-- Optional terms for sorting: an unbound one comes first. -/
def sortOrder : Option Term → Option Term → Ordering
  | none, none => .eq
  | none, some _ => .lt
  | some _, none => .gt
  | some a, some b => a.sortOrder b

end TripleQuery
