import TripleQuery.Expr.Basic

/-!
# Evaluating expressions

An expression evaluates over a binding to a term or fails with a reason. A test takes the truth
value of the result. The connectives tolerate errors: an operand with a definite answer decides,
even if the other one fails.
-/

namespace TripleQuery

/-! ## Failures -/

/-- Why an expression has no value. -/
inductive EvalError where
  | unbound (v : Variable)
  /-- The term is neither a boolean, nor a number, nor a string. -/
  | noTruthValue (t : Term)
  /-- The literal has a numeric datatype, but its lexical form denotes no number. -/
  | malformedNumber (l : Literal)
  /-- One of two numeric literals that are compared denotes no number. -/
  | malformedNumbers (l r : Literal)
  /-- The two terms are not in the order by value. -/
  | notOrdered (l r : Term)
  /-- A blank node has no text. -/
  | textOfBlank
  | languageOf (t : Term)
  | datatypeOf (t : Term)
  | unknownFunction (name : String)
  /-- A function of one argument was called with another number of them. -/
  | arity (name : String) (actual : Nat)
deriving DecidableEq

/-- The text of a failure. -/
def EvalError.message : EvalError → String
  | .unbound v => "unbound variable " ++ v.render
  | .noTruthValue t => "type error: no boolean value for " ++ t.render
  | .malformedNumber l => "type error: malformed numeric " ++ l.render
  | .malformedNumbers l r => "type error: malformed numeric in " ++ l.render ++ " / " ++ r.render
  | .notOrdered l r => "type error: cannot order " ++ l.render ++ " and " ++ r.render
  | .textOfBlank => "type error: str() of blank node"
  | .languageOf t => "type error: lang() of " ++ t.render
  | .datatypeOf t => "type error: datatype() of " ++ t.render
  | .unknownFunction name => "unknown function: " ++ name
  | .arity name actual => name ++ " expects 1 argument(s), got " ++ toString actual

/-! ## Truth values -/

/-- The truth value of a term: booleans are themselves, numbers are true unless zero or NaN, and
strings are true unless empty. -/
def Term.truthValue : Term → Except EvalError Bool
  | .literal l =>
    match l.truth? with
    | some b => .ok b
    | none =>
      if l.isNumeric then
        match l.number? with
        | some x => .ok (!x.isZero && !x.isNaN)
        | none => .error (.malformedNumber l)
      else if l.isString then .ok (!l.lexical.isEmpty)
      else .error (.noTruthValue (.literal l))
  | t => .error (.noTruthValue t)

/-- A conjunction of outcomes: false wins over a failure, which wins over true, and of two
failures the left one counts. -/
def bothTrue : Except EvalError Bool → Except EvalError Bool → Except EvalError Bool
  | .ok false, _ => .ok false
  | _, .ok false => .ok false
  | .ok true, .ok true => .ok true
  | .error e, _ => .error e
  | _, .error e => .error e

/-- A disjunction of outcomes: true wins over a failure, which wins over false, and of two
failures the left one counts. -/
def eitherTrue : Except EvalError Bool → Except EvalError Bool → Except EvalError Bool
  | .ok true, _ => .ok true
  | _, .ok true => .ok true
  | .ok false, .ok false => .ok false
  | .error e, _ => .error e
  | _, .error e => .error e

/-! ## Comparisons -/

/-- Whether two terms are equal: numeric literals by value, all other terms by identity. -/
def Term.equals (a b : Term) : Except EvalError Bool :=
  match a, b with
  | .literal l, .literal r =>
    if l.isNumeric && r.isNumeric then
      match l.number?, r.number? with
      | some x, some y => .ok (x.compare? y == some .eq)
      | _, _ => .error (.malformedNumbers l r)
    else .ok (l == r)
  | a, b => .ok (a == b)

/-- What a comparison operator makes of an order. -/
def CompareOp.holds : CompareOp → Ordering → Bool
  | .eq, o => o == .eq
  | .ne, o => o != .eq
  | .lt, o => o == .lt
  | .le, o => o != .gt
  | .gt, o => o == .gt
  | .ge, o => o != .lt

/-- The outcome of a comparison of two terms. -/
def CompareOp.apply (op : CompareOp) (a b : Term) : Except EvalError Bool :=
  match op with
  | .eq => a.equals b
  | .ne => (a.equals b).map (!·)
  | op =>
    match a.valueOrder? b with
    | some o => .ok (op.holds o)
    | none => .error (.notOrdered a b)

/-! ## Functions -/

/-- The functions that can be called. All of them take one argument. -/
inductive Function where
  | str
  | isIri
  | isBlank
  | isLiteral
  | lang
  | datatype
deriving DecidableEq

namespace Function

/-- The function of a name, in any letter case. -/
def ofName? (name : String) : Option Function :=
  match String.ofList (name.toList.map Char.toLower) with
  | "str" => some .str
  | "isiri" => some .isIri
  | "isuri" => some .isIri
  | "isblank" => some .isBlank
  | "isliteral" => some .isLiteral
  | "lang" => some .lang
  | "datatype" => some .datatype
  | _ => none

/-- The name of a function in messages. -/
def name : Function → String
  | .str => "str"
  | .isIri => "isIRI"
  | .isBlank => "isBlank"
  | .isLiteral => "isLiteral"
  | .lang => "lang"
  | .datatype => "datatype"

/-- The value of a function at a term. -/
def apply : Function → Term → Except EvalError Term
  | .str, .iri text => .ok (.string text)
  | .str, .literal l => .ok (.string l.lexical)
  | .str, .blank _ => .error .textOfBlank
  | .isIri, t => .ok (.boolean t.isIri)
  | .isBlank, t => .ok (.boolean t.isBlank)
  | .isLiteral, t => .ok (.boolean t.isLiteral)
  | .lang, .literal l => .ok (.string (l.language.getD ""))
  | .lang, t => .error (.languageOf t)
  | .datatype, .literal l => .ok (.iri l.datatype)
  | .datatype, t => .error (.datatypeOf t)

end Function

/-! ## Evaluation -/

namespace Expr

/-- The truth value of an outcome. -/
def truthOf (outcome : Except EvalError Term) : Except EvalError Bool :=
  match outcome with
  | .ok t => t.truthValue
  | .error e => .error e

/-- The value of an expression over a binding. -/
def evaluate (b : Binding) : Expr → Except EvalError Term
  | .var v =>
    match b.get? v with
    | some t => .ok t
    | none => .error (.unbound v)
  | .const t => .ok t
  | .bound v => .ok (.boolean (b.contains v))
  | .not e => (truthOf (evaluate b e)).map fun x => .boolean !x
  | .and l r => (bothTrue (truthOf (evaluate b l)) (truthOf (evaluate b r))).map .boolean
  | .or l r => (eitherTrue (truthOf (evaluate b l)) (truthOf (evaluate b r))).map .boolean
  | .compare op l r =>
    match evaluate b l with
    | .error e => .error e
    | .ok x =>
      match evaluate b r with
      | .error e => .error e
      | .ok y => (op.apply x y).map .boolean
  | .call name args =>
    match Function.ofName? name with
    | none => .error (.unknownFunction name)
    | some f =>
      match args with
      | [arg] =>
        match evaluate b arg with
        | .ok t => f.apply t
        | .error e => .error e
      | _ => .error (.arity f.name args.length)

/-- The truth value of an expression over a binding. -/
def test (b : Binding) (e : Expr) : Except EvalError Bool := truthOf (e.evaluate b)

end Expr

end TripleQuery
