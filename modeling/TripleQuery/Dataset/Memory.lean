import TripleQuery.Dataset.Basic

/-!
# The quad store

A store is the set of the quads inserted into it, kept as a list in strictly ascending order: the
default graph first, then the named graphs by name, and within a graph by subject, predicate and
object. A graph exists as long as it has a quad.
-/

namespace TripleQuery

/-- A set of quads in strictly ascending order. -/
structure QuadStore where
  quads : List Quad
  ordered : quads.Pairwise fun a b => a.order b = .lt

namespace QuadStore

/-- The store without quads. -/
def empty : QuadStore := ⟨[], .nil⟩

/-! ## Inserting -/

/-- A quad put into its place in a list; a quad that is there already is not repeated. -/
def place (q : Quad) : List Quad → List Quad
  | [] => [q]
  | r :: rest =>
    match q.order r with
    | .lt => q :: r :: rest
    | .eq => r :: rest
    | .gt => r :: place q rest

theorem mem_place {q r : Quad} {quads : List Quad} :
    r ∈ place q quads ↔ r = q ∨ r ∈ quads := by
  induction quads with
  | nil => simp [place]
  | cons s rest ih =>
    simp only [place]
    split
    · simp
    · next h =>
      cases Std.LawfulEqCmp.eq_of_compare h
      simp
    · simp only [List.mem_cons, ih]
      exact or_left_comm

theorem place_ordered (q : Quad) {quads : List Quad}
    (h : quads.Pairwise fun a b => a.order b = .lt) :
    (place q quads).Pairwise fun a b => a.order b = .lt := by
  induction quads with
  | nil => exact List.pairwise_singleton ..
  | cons r rest ih =>
    obtain ⟨first, others⟩ := List.pairwise_cons.1 h
    simp only [place]
    split
    · next hlt =>
      refine List.pairwise_cons.2 ⟨fun s hs => ?_, h⟩
      rcases List.mem_cons.1 hs with rfl | hs
      · exact hlt
      · exact Std.TransCmp.lt_trans hlt (first s hs)
    · exact h
    · next hgt =>
      refine List.pairwise_cons.2 ⟨fun s hs => ?_, ih others⟩
      rcases mem_place.1 hs with rfl | hs
      · exact Std.OrientedCmp.lt_of_gt hgt
      · exact first s hs

/-- The store with a quad inserted. -/
def insert (store : QuadStore) (q : Quad) : QuadStore :=
  ⟨place q store.quads, place_ordered q store.ordered⟩

@[simp] theorem mem_insert {store : QuadStore} {q r : Quad} :
    r ∈ (store.insert q).quads ↔ r = q ∨ r ∈ store.quads :=
  mem_place

/-- The store of a list of quads. -/
def ofList (quads : List Quad) : QuadStore := quads.foldl insert empty

theorem mem_foldl_insert {r : Quad} (quads : List Quad) (store : QuadStore) :
    r ∈ (quads.foldl insert store).quads ↔ r ∈ store.quads ∨ r ∈ quads := by
  induction quads generalizing store with
  | nil => simp
  | cons q rest ih =>
    rw [List.foldl_cons, ih, mem_insert, List.mem_cons, ← or_assoc, or_comm (b := r = q)]

@[simp] theorem mem_ofList {r : Quad} {quads : List Quad} :
    r ∈ (ofList quads).quads ↔ r ∈ quads := by
  rw [ofList, mem_foldl_insert]
  exact or_iff_right List.not_mem_nil

/-! ## Asking -/

/-- The distinct names among consecutive graphs. -/
def distinctNames : List (Option Term) → List Term
  | [] => []
  | none :: rest => distinctNames rest
  | some name :: rest =>
    if rest.head? = some (some name) then distinctNames rest else name :: distinctNames rest

/-- The names of the named graphs, in ascending order. -/
def graphNames (store : QuadStore) : List Term := distinctNames (store.quads.map (·.graph))

/-- The quads that answer a question, in order. -/
def select (store : QuadStore) (r : ScanRequest) : List Quad := store.quads.filter r.selects

theorem mem_select {store : QuadStore} {r : ScanRequest} {q : Quad} :
    q ∈ store.select r ↔ q ∈ store.quads ∧ r.selects q = true :=
  List.mem_filter

/-- The store as a dataset, which always answers. -/
def dataset (store : QuadStore) : Dataset where
  scan _ r := .ok ((store.select r).map .quad)
  graphNames _ := .ok store.graphNames

/-- Whether a careless scan lists a quad: it looks at the graph only, and takes the default graph
to be among the named ones. -/
def carelesslySelects (r : ScanRequest) (q : Quad) : Bool :=
  match r.target with
  | .anyNamed => true
  | _ => r.targets q.graph

/-- The store as a dataset whose scans list far too much, so that whoever asks has to check. -/
def carelessDataset (store : QuadStore) : Dataset where
  scan _ r := .ok ((store.quads.filter (carelesslySelects r)).map .quad)
  graphNames _ := .ok store.graphNames

end QuadStore

end TripleQuery
