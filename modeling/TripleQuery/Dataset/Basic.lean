import TripleQuery.Pattern

/-!
# Datasets

A dataset answers two questions: which quads of some graphs match given positions, and which
named graphs there are. An answer may depend on how often the question was asked before, may fail,
and may cancel the query, at once or in the middle of a list of quads; so a dataset is a function
of the count of earlier questions.
-/

namespace TripleQuery

/-- The graphs that a scan looks at. -/
inductive GraphTarget where
  | default
  | named (name : Term)
  /-- Every named graph, and not the default graph. -/
  | anyNamed
deriving DecidableEq

/-- Why a dataset has no answer. -/
inductive DatasetError where
  | storage (reason : String)
  | graphUnavailable (name : Term)
deriving DecidableEq

/-- The text of a dataset's failure. -/
def DatasetError.message : DatasetError → String
  | .storage reason => "storage error: " ++ reason
  | .graphUnavailable name => "graph not available: " ++ name.render

/-- A question for quads. A position without a term matches anything. -/
structure ScanRequest where
  subject : Option Term
  predicate : Option Term
  object : Option Term
  target : GraphTarget
deriving DecidableEq

namespace ScanRequest

/-- Whether a graph is among those of the target. -/
def targets (r : ScanRequest) (graph : Option Term) : Bool :=
  match r.target with
  | .default => graph.isNone
  | .named name => graph == some name
  | .anyNamed => graph.isSome

/-- Whether a term is what a position asks for. -/
def accepts (position : Option Term) (t : Term) : Bool := position.all (· == t)

/-- Whether the three terms of a quad are what the positions ask for. -/
def fits (r : ScanRequest) (q : Quad) : Bool :=
  accepts r.subject q.subject && accepts r.predicate q.predicate && accepts r.object q.object

/-- Whether a quad answers the question. -/
def selects (r : ScanRequest) (q : Quad) : Bool := r.targets q.graph && r.fits q

theorem targets_iff {r : ScanRequest} {graph : Option Term} : r.targets graph = true ↔
    match r.target with
    | .default => graph = none
    | .named name => graph = some name
    | .anyNamed => ∃ name, graph = some name := by
  unfold targets
  cases r.target with
  | default => exact Option.isNone_iff_eq_none
  | named name => exact beq_iff_eq
  | anyNamed => exact Option.isSome_iff_exists

theorem accepts_iff {position : Option Term} {t : Term} :
    accepts position t = true ↔ ∀ u, position = some u → t = u := by
  cases position with
  | none => exact iff_of_true rfl nofun
  | some u =>
    have hgiven : accepts (some u) t = true ↔ u = t := beq_iff_eq
    exact hgiven.trans ⟨fun h v hv => h.symm.trans (Option.some.inj hv), fun h => (h u rfl).symm⟩

/-- A quad answers a question exactly if its graph is one of the target and each position that is
given has its term. -/
theorem selects_iff {r : ScanRequest} {q : Quad} : r.selects q = true ↔
    (match r.target with
      | .default => q.graph = none
      | .named name => q.graph = some name
      | .anyNamed => ∃ name, q.graph = some name) ∧
    (∀ t, r.subject = some t → q.subject = t) ∧
    (∀ t, r.predicate = some t → q.predicate = t) ∧
    ∀ t, r.object = some t → q.object = t := by
  simp only [selects, fits, Bool.and_eq_true, targets_iff, accepts_iff, and_assoc]

end ScanRequest

/-- What a scan comes to next: a quad, a failure, or the cancellation of the query. -/
inductive CursorItem where
  | quad (q : Quad)
  | fault (e : DatasetError)
  | cancel
deriving DecidableEq

/-- An answer of a dataset: whether asking cancels the query, and a result or a failure. -/
structure Reply (α : Type) where
  cancels : Bool
  result : Except DatasetError α

/-- The plain answer that a result is. -/
def Reply.ok {α : Type} (result : α) : Reply α := ⟨false, .ok result⟩

/-- Access to stored quads. Each question comes with the number of earlier ones of its kind. -/
structure Dataset where
  scan : Nat → ScanRequest → Reply (List CursorItem)
  graphNames : Nat → Reply (List Term)

/-- The dataset without quads and without graphs. -/
def Dataset.empty : Dataset where
  scan _ _ := .ok []
  graphNames _ := .ok []

end TripleQuery
