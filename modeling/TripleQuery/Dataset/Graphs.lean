import TripleQuery.Dataset.Ascending
import TripleQuery.Dataset.Basic

/-!
# The store by graphs

The store as it is built and asked: one set of triples for the default graph and one for each named
graph. A named graph comes into being with its first triple, so none is empty. Scans go through the
sets of the target in order and keep the triples that fit.
-/

namespace TripleQuery

/-! ## Triples -/

/-- What a graph holds: subject, predicate and object. -/
structure Triple where
  subject : Term
  predicate : Term
  object : Term
deriving DecidableEq

namespace Triple

/-- Triples by subject, then by predicate, then by object. -/
def order : Triple → Triple → Ordering :=
  compareLex (compareOn (·.subject)) (compareLex (compareOn (·.predicate)) (compareOn (·.object)))

instance : Std.TransCmp order :=
  inferInstanceAs (Std.TransCmp (compareLex (compareOn subject)
    (compareLex (compareOn predicate) (compareOn object))))

instance : Std.LawfulEqCmp order where
  eq_of_compare {a b} h := by
    obtain ⟨s, p, o⟩ := a
    obtain ⟨s', p', o'⟩ := b
    simp only [order, compareLex, compareOn, Ordering.then_eq_eq] at h
    obtain ⟨hs, hp, ho⟩ := h
    cases Std.LawfulEqOrd.eq_of_compare hs
    cases Std.LawfulEqOrd.eq_of_compare hp
    cases Std.LawfulEqOrd.eq_of_compare ho
    rfl

/-- The triple as a quad of a graph. -/
def inGraph (t : Triple) (graph : Option Term) : Quad := ⟨t.subject, t.predicate, t.object, graph⟩

end Triple

/-- The triple of a quad. -/
def Quad.triple (q : Quad) : Triple := ⟨q.subject, q.predicate, q.object⟩

/-- A set of triples. -/
abbrev TripleSet : Type := AscendingSet Triple Triple.order

/-- The quads of a graph that a question asks for, in order. -/
def TripleSet.scan (triples : TripleSet) (graph : Option Term) (r : ScanRequest) : List Quad :=
  (triples.keys.filter fun t => r.fits (t.inGraph graph)).map (·.inGraph graph)

/-! ## Stores -/

/-- A set of triples per graph. Only the default graph can be empty. -/
structure GraphStore where
  defaultGraph : TripleSet
  named : AscendingMap Term TripleSet compare
  inhabited : ∀ e ∈ named.entries, e.2.entries ≠ []

namespace GraphStore

/-- The store without quads. -/
def empty : GraphStore := ⟨.empty, .empty, fun _ he => (nomatch he)⟩

/-- The store with a triple inserted into the default graph, and whether it is new there. -/
def insert (store : GraphStore) (t : Triple) : Bool × GraphStore :=
  (!store.defaultGraph.contains t, { store with defaultGraph := store.defaultGraph.insert t })

theorem insert_nonempty (triples : TripleSet) (t : Triple) : (triples.insert t).entries ≠ [] :=
  List.ne_nil_of_mem (AscendingMap.mem_update.2 (.inl rfl))

/-- The store with a triple inserted into a named graph, which is created if needed, and whether the
triple is new there. -/
def insertNamed (store : GraphStore) (name : Term) (t : Triple) : Bool × GraphStore :=
  (!((store.named.get? name).getD .empty).contains t,
    { store with
      named := store.named.update name fun triples => (triples.getD .empty).insert t
      inhabited := fun e he => by
        rcases AscendingMap.mem_update.1 he with rfl | ⟨he, -⟩
        · exact insert_nonempty _ t
        · exact store.inhabited e he })

/-- The store with a quad inserted into its graph, and whether it is new. -/
def insertQuad (store : GraphStore) (q : Quad) : Bool × GraphStore :=
  match q.graph with
  | some name => store.insertNamed name q.triple
  | none => store.insert q.triple

/-- The store of a list of quads. -/
def ofList (quads : List Quad) : GraphStore :=
  quads.foldl (fun store q => (store.insertQuad q).2) empty

/-! ## Asking -/

/-- The number of quads. -/
def size (store : GraphStore) : Nat :=
  store.named.entries.foldl (fun n e => n + e.2.size) store.defaultGraph.size

/-- Whether there is no quad. -/
def isEmpty (store : GraphStore) : Bool := store.size == 0

/-- The names of the named graphs, in ascending order. -/
def graphNames (store : GraphStore) : List Term := store.named.keys

/-- The quads that answer a question, graph by graph. -/
def scan (store : GraphStore) (r : ScanRequest) : List Quad :=
  match r.target with
  | .default => store.defaultGraph.scan none r
  | .named name =>
    match store.named.get? name with
    | some triples => triples.scan (some name) r
    | none => []
  | .anyNamed => store.named.entries.flatMap fun (name, triples) => triples.scan (some name) r

/-- The store as a dataset, which always answers. -/
def dataset (store : GraphStore) : Dataset where
  scan _ r := .ok ((store.scan r).map .quad)
  graphNames _ := .ok store.graphNames

end GraphStore

end TripleQuery
