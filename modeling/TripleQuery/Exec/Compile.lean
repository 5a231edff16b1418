import TripleQuery.Dataset.Basic
import TripleQuery.Exec.Close

/-!
# Compiling operators

An operator tree is compiled against a seed, the rows that flow into it. At the root the seed is
the identity, one row that binds nothing; in a join it is the output of the left side, so that the
right side is evaluated by substitution. An operator that is not seedable (`Op.isSeedable`), such as
one that has to see its whole input, is compiled against the identity instead and joined with its
seed afterwards.

If compiling fails, everything built before is closed, the seed included. A seed that was handed
to a realization is the realization's to close.
-/

namespace TripleQuery

/-! ## Outcomes of compiling -/

/-- A pipeline or an error, and what happened on the way. -/
structure Compiled where
  result : Except ExecError Pipe
  events : List Event

namespace Compiled

/-- A pipeline built without further ado. -/
def ok (p : Pipe) : Compiled := ⟨.ok p, []⟩

/-- An error, after closing a pipeline that will not be used. -/
def refuse (e : ExecError) (unused : Pipe) : Compiled := ⟨.error e, unused.close.2⟩

/-- The outcome with earlier events in front. -/
def after (events : List Event) (c : Compiled) : Compiled := ⟨c.result, events ++ c.events⟩

/-- The outcome of a further step with the pipeline, if there is one. -/
def bind (c : Compiled) (next : Pipe → Compiled) : Compiled :=
  match c.result with
  | .ok p => (next p).after c.events
  | .error _ => c

/-- The outcome with the pipeline, if there is one, put to use. -/
def map (f : Pipe → Pipe) (c : Compiled) : Compiled := ⟨c.result.map f, c.events⟩

/-- The outcome, where a pipeline that waits for it is closed if there is an error. -/
def orClose (waiting : Pipe) (c : Compiled) : Compiled :=
  match c.result with
  | .ok _ => c
  | .error e => ⟨.error e, c.events ++ waiting.close.2⟩

end Compiled

/-! ## Seeds -/

/-- The rows that flow into an operator. -/
inductive Seed where
  /-- One row that binds nothing. -/
  | identity
  /-- The rows of a pipeline. -/
  | input (p : Pipe)

namespace Seed

def isIdentity : Seed → Bool
  | identity => true
  | input _ => false

/-- The seed as a pipeline. -/
def toPipe : Seed → Pipe
  | identity => .identity
  | input p => p

/-- The events of closing a seed that will not be used. -/
def close : Seed → List Event
  | identity => []
  | input p => p.close.2

/-- The written form of a seed. -/
def describe : Seed → String
  | identity => "Identity"
  | input p => "Input(" ++ p.name ++ ")"

/-- Builds on the identity instead of an input, and joins the input with the result. -/
def apart (seed : Seed) (build : Seed → Compiled) : Compiled :=
  match seed with
  | identity => build identity
  | input p => ((build identity).map (.joining .inner none p)).orClose p

/-- Builds on the seed, or apart from it where its rows cannot be fed in one by one. -/
def through (seed : Seed) (seedable : Bool) (build : Seed → Compiled) : Compiled :=
  match seedable with
  | true => build seed
  | false => seed.apart build

theorem through_unseedable {seed : Seed} {seedable : Bool} (h : seedable = false)
    (build : Seed → Compiled) : seed.through seedable build = seed.apart build := by
  rw [h]
  rfl

end Seed

/-! ## Realizations and contexts -/

/-- Builds the pipeline of an extension over a seed and under an active graph. -/
def Realizer : Type := Extension → ActiveGraph → Pipe → Compiled

/-- The realizations that are registered, by name. -/
structure Registry where
  entries : List (String × Realizer)

namespace Registry

/-- No realizations. -/
def empty : Registry := ⟨[]⟩

/-- The registry with a realization registered, instead of any earlier one of its name. -/
def register (r : Registry) (name : String) (realizer : Realizer) : Registry :=
  ⟨(name, realizer) :: r.entries.filter (·.1 != name)⟩

/-- The realization of a name. -/
def find? (r : Registry) (name : String) : Option Realizer := r.entries.lookup name

/-- The number of realizations. -/
def size (r : Registry) : Nat := r.entries.length

/-- The registered names in ascending order. -/
def names (r : Registry) : List String := (r.entries.map (·.1)).mergeSort fun a b => a ≤ b

/-- The written form of a registry. -/
def describe (r : Registry) : String :=
  "ExtensionRegistry \x7b realizers: [" ++ ", ".intercalate (r.names.map Text.quoted) ++ "] \x7d"

end Registry

/-- What a query runs in. Conditions and sort keys are evaluated by the standard evaluator
(`Expr.evaluate`, `Expr.test`); a context with an evaluator of its own is not modelled. -/
structure Context where
  dataset : Dataset
  extensions : Registry
  config : Config
  activeGraph : ActiveGraph

namespace Context

/-- A context without data, extensions or settings. -/
def standard : Context := ⟨.empty, .empty, .standard, .default⟩

/-- The context with another active graph. -/
def inGraph (ctx : Context) (graph : ActiveGraph) : Context := { ctx with activeGraph := graph }

/-- The most rows that an operator may buffer. -/
def maxRows (ctx : Context) : Nat := ctx.config.maxRows.toNat

/-- The pipeline of an extension, which needs a registered realization. -/
def realize (ctx : Context) (ext : Extension) (seed : Seed) : Compiled :=
  match ctx.extensions.find? ext.name with
  | some realizer => realizer ext ctx.activeGraph seed.toPipe
  | none =>
    ⟨.error (.unsupported ("Extension(" ++ ext.name ++ ")") "no realization registered"),
      seed.close⟩

end Context

/-! ## Patterns -/

/-- One scan per pattern on top of a pipeline. A condition is put behind the first scan with which
all its variables are bound, or behind the last one; `bound` are the variables bound so far. -/
def scanChain (slot : GraphSlot) (condition : Option Expr) (bound : List Variable) :
    List TriplePattern → Pipe → Pipe
  | [], p =>
    match condition with
    | some e => .filter .created e p
    | none => p
  | pattern :: rest, p =>
    let p := Pipe.scan .created pattern slot .idle p
    let bound := bound ++ pattern.vars
    match condition with
    | some e =>
      if coveredBy e.mentions bound then scanChain slot none bound rest (.filter .created e p)
      else scanChain slot (some e) bound rest p
    | none => scanChain slot none bound rest p

/-- The scans of some patterns over a seed, with a condition among them. -/
def compilePatterns (slot : GraphSlot) (condition : Option Expr) (patterns : List TriplePattern)
    (seed : Seed) : Pipe :=
  scanChain slot condition slot.vars patterns seed.toPipe

/-- The slot and the patterns of a plain pattern. -/
def Op.patterns? (graph : ActiveGraph) : Op → Option (GraphSlot × List TriplePattern)
  | .bgp patterns => some (.ofActive graph, patterns)
  | .quadPattern name patterns => some (.ofPattern name, patterns)
  | _ => none

/-- A condition over a pattern: among the scans of a plain one if the settings place it there, and
else behind what is built. -/
def compileFilter (condition : Expr) (pattern : Op) (ctx : Context) (build : Seed → Compiled)
    (seed : Seed) : Compiled :=
  match pattern.patterns? ctx.activeGraph, ctx.config.filterPlacement with
  | some (slot, patterns), true => .ok (compilePatterns slot (some condition) patterns seed)
  | _, _ => (build seed).map (.filter .created condition)

/-! ## Unions -/

/-- A shared input that two readers are about to read. -/
def SharedRows.forTwo (limit : Nat) : SharedRows := ⟨#[], false, none, 2, limit⟩

/-- The union of two branches over the same input. Both branches are built on readers; if one
fails the readers are closed, and the input with the last of them. -/
def shareBetween (input : Pipe) (limit : Nat) (left right : Seed → Compiled) : Compiled :=
  let reader := Seed.input (.replay .created 0)
  let first := left reader
  let body : Compiled :=
    match first.result with
    | .error e => ⟨.error e, first.events ++ reader.close⟩
    | .ok l => (((right reader).map fun r => .concatAll [l, r]).orClose l).after first.events
  let (shared, input, events) :=
    (SharedRows.forTwo limit).settle input (fun _ => input.close) body.events
  ⟨body.result.map (.share shared input), events⟩

/-- The union of two branches: over the identity each has its own, over an input they share it. -/
def unite (limit : Nat) (left right : Seed → Compiled) : Seed → Compiled
  | .identity =>
    (left .identity).bind fun l =>
      ((right .identity).map fun r => .concatAll [l, r]).orClose l
  | .input p => shareBetween p limit left right

/-! ## Operators -/

/-- The pipeline of an operator over a seed. -/
def compile (op : Op) (ctx : Context) (seed : Seed) : Compiled :=
  seed.through op.isSeedable fun seed =>
    match op with
    | .bgp patterns => .ok (compilePatterns (.ofActive ctx.activeGraph) none patterns seed)
    | .quadPattern graph patterns =>
      .ok (compilePatterns (.ofPattern graph) none patterns seed)
    | .datasetNames name => .ok (.names .created name none [] seed.toPipe)
    | .table t => .ok (.table .created t.rows .idle seed.toPipe)
    | .extension ext => ctx.realize ext seed
    | .join l r => (compile l ctx seed).bind fun p => compile r ctx (.input p)
    | .leftJoin l r condition =>
      (compile l ctx seed).bind fun p =>
        if ctx.config.leftJoin = .auto ∧ r.isProbeable then
          .ok (.optional .created r condition ctx.activeGraph p)
        else ((compile r ctx .identity).map (.joining .left condition p)).orClose p
    | .union l r => unite ctx.maxRows (compile l ctx) (compile r ctx) seed
    | .filter e sub => compileFilter e sub ctx (compile sub ctx) seed
    | .graph (.term name) sub => compile sub (ctx.inGraph (.named name)) seed
    | .graph (.var v) sub => .ok (.graphs .created v sub none .idle seed.toPipe)
    | .order keys sub => (compile sub ctx seed).map (.order .created keys (.gathering #[]))
    | .project vars sub => (compile sub ctx seed).map (.project .created vars)
    | .distinct sub => (compile sub ctx seed).map (.distinct .created [] ctx.maxRows)
    | .slice offset limit sub => (compile sub ctx seed).map (.slice .created offset limit)

end TripleQuery
