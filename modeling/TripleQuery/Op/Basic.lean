import TripleQuery.Expr.Basic
import TripleQuery.Pattern

/-!
# Operators

A query is a tree of operators: patterns, tables and extensions at the leaves, joins and unions
with two inputs, and restrictions, scopes, sorts and slices with one.
-/

namespace TripleQuery

/-! ## Parts of operators -/

/-- The direction of a sort key. -/
inductive SortDirection where
  | ascending
  | descending
deriving DecidableEq

/-- One key of a sort. -/
structure SortKey where
  expr : Expr
  direction : SortDirection
deriving BEq

/-- Rows given in the query. Declared variables may be left unbound in a row. -/
structure Table where
  vars : List Variable
  rows : List Binding
deriving DecidableEq

/-- The table with one row that binds nothing, the neutral element of joins. -/
def Table.unit : Table := ⟨[], [Binding.empty]⟩

/-- What an extension node carries for its realization. -/
inductive Payload where
  | unit
  | text (s : String)
  /-- A variable that ranges over the integers from zero below a bound. -/
  | range (v : Variable) (count : Int)
deriving DecidableEq

/-- A node that the engine leaves to a registered realization. The payload is an object of its
own, which the token identifies: two nodes share it or they do not. -/
structure Extension where
  name : String
  payload : Payload
  token : Nat

/-- Extensions are equal if they have the same name and share their payload. -/
instance : BEq Extension := ⟨fun a b => a.name == b.name && a.token == b.token⟩

/-- The description of an extension, which hides the payload. -/
def Extension.describe (e : Extension) : String :=
  "OpExtension \x7b name: " ++ Text.quoted e.name ++ ", payload: \"<opaque>\" \x7d"

/-! ## The tree -/

/-- A query operator. -/
inductive Op where
  /-- Triple patterns over the active graph. -/
  | bgp (patterns : List TriplePattern)
  /-- Triple patterns over a graph that the node names. -/
  | quadPattern (graph : TermPattern) (patterns : List TriplePattern)
  /-- The names of the named graphs. -/
  | datasetNames (name : TermPattern)
  | table (table : Table)
  | extension (ext : Extension)
  | join (left right : Op)
  /-- All rows of the left side, with those of the right side where there are any. -/
  | leftJoin (left right : Op) (condition : Option Expr)
  | union (left right : Op)
  | filter (condition : Expr) (sub : Op)
  /-- The operator below, over a named graph or over every named graph. -/
  | graph (name : TermPattern) (sub : Op)
  | order (keys : List SortKey) (sub : Op)
  | project (vars : List Variable) (sub : Op)
  | distinct (sub : Op)
  | slice (offset : Nat) (limit : Option Nat) (sub : Op)
deriving BEq

namespace Op

/-- The operators directly below, from left to right. -/
def children : Op → List Op
  | bgp _ | quadPattern _ _ | datasetNames _ | table _ | extension _ => []
  | join l r | leftJoin l r _ | union l r => [l, r]
  | filter _ s | graph _ s | order _ s | project _ s | distinct s | slice _ _ s => [s]

/-- Variables that the rows of the operator may bind, with repetitions. Extensions are opaque and
contribute none. -/
def mentions : Op → List Variable
  | bgp patterns => patterns.flatMap TriplePattern.vars
  | quadPattern g patterns => g.vars ++ patterns.flatMap TriplePattern.vars
  | datasetNames name => name.vars
  | table t => t.vars ++ t.rows.flatMap Binding.domain
  | extension _ => []
  | join l r => l.mentions ++ r.mentions
  | leftJoin l r _ => l.mentions ++ r.mentions
  | union l r => l.mentions ++ r.mentions
  | filter _ s => s.mentions
  | graph name s => name.vars ++ s.mentions
  | order _ s => s.mentions
  | project vars _ => vars
  | distinct s => s.mentions
  | slice _ _ s => s.mentions

/-- Whether the operator can be fed its input row by row, by substitution. Operators whose result
depends on the whole input, that hide variables or that keep unmatched rows cannot; nor can a
filter that mentions a variable its own subtree does not bind. -/
def isSeedable : Op → Bool
  | leftJoin .. | order .. | project .. | distinct .. | slice .. => false
  | filter e s => coveredBy e.mentions s.mentions
  | _ => true

/-- Whether the operator is a plain pattern, which can be probed with one row at a time. -/
def isProbeable : Op → Bool
  | bgp _ | quadPattern .. => true
  | _ => false

end Op

end TripleQuery
