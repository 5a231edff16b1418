import TripleQuery.Binding.Basic

/-!
# Expressions

The conditions of filters and the keys of sorts: variables, constants, a test for being bound,
connectives, comparisons and function calls. A function is called by name, and the name is
resolved only when the call is evaluated.
-/

namespace TripleQuery

/-- A comparison operator. -/
inductive CompareOp where
  | eq
  | ne
  | lt
  | le
  | gt
  | ge
deriving DecidableEq

/-- The symbol of a comparison operator. -/
def CompareOp.symbol : CompareOp → String
  | .eq => "="
  | .ne => "!="
  | .lt => "<"
  | .le => "<="
  | .gt => ">"
  | .ge => ">="

/-- An expression over the variables of a binding. -/
inductive Expr where
  | var (v : Variable)
  | const (t : Term)
  | bound (v : Variable)
  | not (e : Expr)
  | and (l r : Expr)
  | or (l r : Expr)
  | compare (op : CompareOp) (l r : Expr)
  | call (name : String) (args : List Expr)
deriving BEq

namespace Expr

mutual
/-- The variables that the expression mentions, from left to right and with repetitions. -/
def mentions : Expr → List Variable
  | .var v => [v]
  | .const _ => []
  | .bound v => [v]
  | .not e => e.mentions
  | .and l r => l.mentions ++ r.mentions
  | .or l r => l.mentions ++ r.mentions
  | .compare _ l r => l.mentions ++ r.mentions
  | .call _ args => mentionsAll args

/-- The variables that a list of expressions mentions. -/
def mentionsAll : List Expr → List Variable
  | [] => []
  | e :: rest => e.mentions ++ mentionsAll rest
end

mutual
/-- The written form of an expression, with every connective in parentheses. -/
def render : Expr → String
  | .var v => v.render
  | .const t => t.render
  | .bound v => "bound(" ++ v.render ++ ")"
  | .not e => "!(" ++ e.render ++ ")"
  | .and l r => "(" ++ l.render ++ " && " ++ r.render ++ ")"
  | .or l r => "(" ++ l.render ++ " || " ++ r.render ++ ")"
  | .compare op l r => "(" ++ l.render ++ " " ++ op.symbol ++ " " ++ r.render ++ ")"
  | .call name args => name ++ "(" ++ ", ".intercalate (renderAll args) ++ ")"

/-- The written forms of a list of expressions. -/
def renderAll : List Expr → List String
  | [] => []
  | e :: rest => e.render :: renderAll rest
end

end Expr

/-! ## Sets of variables -/

/-- A variable added to a list of variables in strictly ascending order of names. -/
def insertVariable (v : Variable) : List Variable → List Variable
  | [] => [v]
  | w :: rest =>
    if v = w then w :: rest
    else if v.name < w.name then v :: w :: rest
    else w :: insertVariable v rest

/-- The variables of a list, once each and in name order. -/
def variableSet (vars : List Variable) : List Variable := vars.foldr insertVariable []

/-- Whether every variable of one list is in the other. -/
def coveredBy (vars : List Variable) (others : List Variable) : Bool :=
  vars.all others.contains

end TripleQuery
