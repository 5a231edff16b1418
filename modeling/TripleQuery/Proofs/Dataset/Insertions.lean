import TripleQuery.Dataset.Graphs
import TripleQuery.Proofs.Solutions.Graphs

/-!
# What a store holds

A store by graphs is the set of the quads that were inserted into it
(`GraphStore.holds_what_was_inserted`), in whatever order and however often. The argument goes
through the list of its quads, graph by graph, which is in strictly ascending order
(`quads_ordered`): inserting puts a quad into it (`mem_quads_insertQuad`) and a scan filters it
(`scan_eq`). That list is a store in its own right, and the same dataset (`flat_dataset`).
-/

namespace TripleQuery

/-! ## Order -/

/-- Within a graph, quads are in the order of their triples. -/
theorem Quad.order_inGraph (t u : Triple) (graph : Option Term) :
    (t.inGraph graph).order (u.inGraph graph) = t.order u := by
  have hgraph : compare graph graph = .eq := Std.ReflCmp.compare_self
  show (compare graph graph).then (t.order u) = t.order u
  rw [hgraph]
  rfl

/-- Quads of different graphs are in the order of their graphs. -/
theorem Quad.order_of_graph_lt {q r : Quad} (h : compare q.graph r.graph = .lt) :
    q.order r = .lt := by
  show (compare q.graph r.graph).then _ = .lt
  rw [h]
  rfl

/-- Lists in one strict order with the same members are the same. -/
theorem eq_of_strictly_ordered {α : Type} {R : α → α → Prop} (hR : ∀ a b, R a b → ¬ R b a)
    {xs ys : List α} (hx : xs.Pairwise R) (hy : ys.Pairwise R) (h : ∀ a, a ∈ xs ↔ a ∈ ys) :
    xs = ys := by
  have hnodup {xs : List α} (hx : xs.Pairwise R) : xs.Nodup := by
    refine hx.imp fun {a b} hab heq => ?_
    subst heq
    exact hR a a hab hab
  have hperm : xs.Perm ys := (List.perm_ext_iff_of_nodup (hnodup hx) (hnodup hy)).2 h
  exact hperm.eq_of_pairwise (fun a b _ _ hab hba => absurd hba (hR a b hab)) hx hy

namespace AscendingMap

variable {κ ν : Type} {cmp : κ → κ → Ordering}

theorem keys_ordered (m : AscendingMap κ ν cmp) : m.keys.Pairwise fun k l => cmp k l = .lt :=
  List.pairwise_map.2 m.ordered

variable [Std.TransCmp cmp]

/-- Maps with the same values are the same. -/
theorem ext_get? [Std.LawfulEqCmp cmp] {m n : AscendingMap κ ν cmp}
    (h : ∀ k, m.get? k = n.get? k) : m = n := by
  have hmem (e : κ × ν) : e ∈ m.entries ↔ e ∈ n.entries := by
    rw [← get?_eq_some_iff, ← get?_eq_some_iff, h]
  have hentries : m.entries = n.entries :=
    eq_of_strictly_ordered (fun _ _ => Std.OrientedCmp.not_lt_of_lt) m.ordered n.ordered hmem
  obtain ⟨entries, ordered⟩ := m
  subst hentries
  rfl

/-- Sets with the same members are the same. -/
theorem ext_keys [Std.LawfulEqCmp cmp] {s t : AscendingSet κ cmp}
    (h : ∀ k, k ∈ s.keys ↔ k ∈ t.keys) : s = t := by
  refine ext_get? fun k => Option.ext fun u => ?_
  obtain rfl : u = () := rfl
  rw [get?_eq_some_iff, get?_eq_some_iff, ← mem_keys_iff, ← mem_keys_iff, h]

end AscendingMap

namespace GraphStore

variable {store : GraphStore} {q r : Quad} {name : Term}

/-! ## The quads of a store -/

/-- The triples of a graph. -/
def triples (store : GraphStore) : Option Term → TripleSet
  | none => store.defaultGraph
  | some name => (store.named.get? name).getD .empty

/-- The quads of the store, graph by graph. -/
def quads (store : GraphStore) : List Quad :=
  store.defaultGraph.keys.map (·.inGraph none) ++
    store.named.entries.flatMap fun e => e.2.keys.map (·.inGraph (some e.1))

theorem mem_triples_some {t : Triple} : t ∈ (store.triples (some name)).keys ↔
    ∃ ts : TripleSet, (name, ts) ∈ store.named.entries ∧ t ∈ ts.keys := by
  have htriples : store.triples (some name) = (store.named.get? name).getD .empty := rfl
  cases hget : store.named.get? name with
  | none =>
    rw [htriples, hget]
    refine iff_of_false List.not_mem_nil ?_
    rintro ⟨ts, hts, -⟩
    rw [AscendingMap.get?_eq_some_iff.2 hts] at hget
    cases hget
  | some ts =>
    rw [htriples, hget]
    refine ⟨fun ht => ⟨ts, AscendingMap.get?_eq_some_iff.1 hget, ht⟩, ?_⟩
    rintro ⟨us, hus, ht⟩
    rw [AscendingMap.get?_eq_some_iff.2 hus] at hget
    cases hget
    exact ht

theorem mem_map_inGraph {ts : TripleSet} {graph : Option Term} :
    q ∈ ts.keys.map (·.inGraph graph) ↔ q.graph = graph ∧ q.triple ∈ ts.keys := by
  rw [List.mem_map]
  constructor
  · rintro ⟨t, ht, rfl⟩
    exact ⟨rfl, ht⟩
  · rintro ⟨rfl, ht⟩
    exact ⟨q.triple, ht, rfl⟩

theorem mem_quads : q ∈ store.quads ↔ q.triple ∈ (store.triples q.graph).keys := by
  simp only [quads, List.mem_append, List.mem_flatMap, mem_map_inGraph]
  cases hgraph : q.graph with
  | none => simp [triples]
  | some name =>
    rw [mem_triples_some]
    constructor
    · rintro (⟨hnone, -⟩ | ⟨⟨name', ts⟩, he, hname, ht⟩)
      · cases hnone
      · cases hname
        exact ⟨ts, he, ht⟩
    · rintro ⟨ts, he, ht⟩
      exact .inr ⟨(name, ts), he, rfl, ht⟩

/-- The quads of a store are in strictly ascending order, the default graph first. -/
theorem quads_ordered (store : GraphStore) : store.quads.Pairwise fun a b => a.order b = .lt := by
  have hgraph (ts : TripleSet) (graph : Option Term) :
      (ts.keys.map (·.inGraph graph)).Pairwise fun a b => a.order b = .lt :=
    List.pairwise_map.2 (ts.keys_ordered.imp fun h => by rwa [Quad.order_inGraph])
  refine List.pairwise_append.2 ⟨hgraph _ _, List.pairwise_flatMap.2 ⟨fun e _ => hgraph _ _, ?_⟩,
    fun q hq r hr => ?_⟩
  · refine store.named.ordered.imp fun {e e'} hlt q hq r hr => Quad.order_of_graph_lt ?_
    rw [(mem_map_inGraph.1 hq).1, (mem_map_inGraph.1 hr).1]
    exact hlt
  · obtain ⟨e, -, he⟩ := List.mem_flatMap.1 hr
    refine Quad.order_of_graph_lt ?_
    rw [(mem_map_inGraph.1 hq).1, (mem_map_inGraph.1 he).1]
    rfl

/-! ## Inserting -/

/-- Inserting changes the triples of one graph, where one more may be. -/
theorem triples_insertQuad (store : GraphStore) (q : Quad) (graph : Option Term) :
    (store.insertQuad q).2.triples graph =
      if graph = q.graph then (store.triples graph).insert q.triple else store.triples graph := by
  unfold insertQuad
  cases hq : q.graph with
  | none =>
    cases graph with
    | none => rfl
    | some name => rfl
  | some name =>
    cases graph with
    | none => rfl
    | some name' =>
      by_cases hname : name' = name
      · subst hname
        rw [if_pos rfl]
        show ((store.named.update _ _).get? name').getD .empty = _
        rw [AscendingMap.get?_update_self]
        rfl
      · rw [if_neg (fun h => hname (Option.some.inj h))]
        show ((store.named.update _ _).get? name').getD .empty = _
        rw [AscendingMap.get?_update_of_ne _ hname]
        rfl

theorem mem_quads_insertQuad : r ∈ (store.insertQuad q).2.quads ↔ r = q ∨ r ∈ store.quads := by
  rw [mem_quads, mem_quads, triples_insertQuad]
  by_cases hgraph : r.graph = q.graph
  · rw [if_pos hgraph, AscendingMap.mem_keys_insert]
    refine or_congr_left ⟨fun htriple => ?_, fun hr => hr ▸ rfl⟩
    have hback (q : Quad) : q.triple.inGraph q.graph = q := rfl
    rw [← hback r, ← hback q, htriple, hgraph]
  · have hne : r ≠ q := fun hr => hgraph (congrArg Quad.graph hr)
    rw [if_neg hgraph, or_iff_right hne]

theorem insertQuad_isNew : (store.insertQuad q).1 = true ↔ q ∉ store.quads := by
  have hnew : (store.insertQuad q).1 = !(store.triples q.graph).contains q.triple := by
    unfold insertQuad
    cases hq : q.graph <;> rfl
  rw [hnew, mem_quads, Bool.not_eq_true', ← Bool.not_eq_true, AscendingMap.contains_iff_mem_keys]

theorem mem_quads_foldl (qs : List Quad) (store : GraphStore) :
    r ∈ (qs.foldl (fun store q => (store.insertQuad q).2) store).quads ↔
      r ∈ store.quads ∨ r ∈ qs := by
  induction qs generalizing store with
  | nil => simp
  | cons q rest ih =>
    rw [List.foldl_cons, ih, mem_quads_insertQuad, List.mem_cons, ← or_assoc, or_comm (b := r = q)]

theorem mem_quads_ofList {qs : List Quad} : r ∈ (ofList qs).quads ↔ r ∈ qs := by
  rw [ofList, mem_quads_foldl]
  exact or_iff_right List.not_mem_nil

/-! ## Asking -/

theorem length_quads (store : GraphStore) : store.quads.length = store.size := by
  have hnamed (entries : List (Term × TripleSet)) (n : Nat) :
      entries.foldl (fun n e => n + e.2.size) n =
        n + (entries.flatMap fun e => e.2.keys.map (·.inGraph (some e.1))).length := by
    induction entries generalizing n with
    | nil => rfl
    | cons head rest ih =>
      rw [List.foldl_cons, ih, List.flatMap_cons, List.length_append, ← Nat.add_assoc]
      simp only [List.length_map, AscendingMap.keys, AscendingMap.size]
  rw [size, hnamed, quads, List.length_append]
  simp only [List.length_map, AscendingMap.keys, AscendingMap.size]

theorem scan_triples (ts : TripleSet) (graph : Option Term) (r : ScanRequest) :
    ts.scan graph r = (ts.keys.map (·.inGraph graph)).filter r.fits := by
  rw [TripleSet.scan, List.filter_map]
  rfl

/-- Of the quads of a graph, a question selects all that fit or none. -/
theorem filter_selects_inGraph (ts : TripleSet) (graph : Option Term) (r : ScanRequest) :
    (ts.keys.map (·.inGraph graph)).filter r.selects =
      if r.targets graph then ts.scan graph r else [] := by
  rw [scan_triples]
  have hselects (q : Quad) (hq : q ∈ ts.keys.map (·.inGraph graph)) :
      r.selects q = (r.targets graph && r.fits q) := by
    rw [ScanRequest.selects, (mem_map_inGraph.1 hq).1]
  rw [List.filter_congr hselects]
  cases r.targets graph <;> simp

/-- In entries with ascending names, what belongs to one name is what is kept under it. -/
theorem flatMap_named {entries : List (Term × TripleSet)}
    (ordered : entries.Pairwise fun a b => compare a.1 b.1 = .lt) (name : Term)
    (f : TripleSet → List Quad) :
    (entries.flatMap fun e => if e.1 = name then f e.2 else []) =
      ((AscendingMap.lookup compare name entries).map f).getD [] := by
  induction entries with
  | nil => rfl
  | cons head rest ih =>
    obtain ⟨l, ts⟩ := head
    obtain ⟨first, others⟩ := List.pairwise_cons.1 ordered
    rw [List.flatMap_cons, AscendingMap.lookup]
    by_cases hl : l = name
    · subst hl
      have hnone : (rest.flatMap fun e => if e.1 = l then f e.2 else []) = [] := by
        refine List.flatMap_eq_nil_iff.2 fun e he => if_neg ?_
        exact AscendingMap.ne_of_before (first e he)
      rw [hnone, if_pos rfl, if_pos Std.ReflCmp.compare_self]
      exact List.append_nil _
    · have hne : compare name l ≠ .eq := fun heq => hl (Std.LawfulEqOrd.eq_of_compare heq).symm
      rw [if_neg hl, if_neg hne]
      exact ih others

/-- A scan gives the quads of the store that the question selects, in their order. -/
theorem scan_eq (store : GraphStore) (r : ScanRequest) :
    store.scan r = store.quads.filter r.selects := by
  rw [quads, List.filter_append, List.filter_flatMap, filter_selects_inGraph]
  simp only [filter_selects_inGraph]
  unfold scan ScanRequest.targets
  cases htarget : r.target with
  | default => simp
  | named name =>
    have hname : (fun e : Term × TripleSet =>
        if (some e.1 == some name) = true then e.2.scan (some e.1) r else []) =
          fun e => if e.1 = name then e.2.scan (some name) r else [] := by
      funext e
      by_cases he : e.1 = name
      · simp [he]
      · simp [he]
    simp only [hname, flatMap_named store.named.ordered name (·.scan (some name) r)]
    show _ = _ ++ ((store.named.get? name).map _).getD []
    cases store.named.get? name <;> rfl
  | anyNamed => simp

theorem mem_scan {r : ScanRequest} : q ∈ store.scan r ↔ q ∈ store.quads ∧ r.selects q = true := by
  rw [scan_eq, List.mem_filter]

theorem scan_ordered (store : GraphStore) (r : ScanRequest) :
    (store.scan r).Pairwise fun a b => a.order b = .lt := by
  rw [scan_eq]
  exact store.quads_ordered.filter _

theorem triples_of_entry {ts : TripleSet} (h : (name, ts) ∈ store.named.entries) :
    store.triples (some name) = ts := by
  show (store.named.get? name).getD .empty = ts
  rw [AscendingMap.get?_eq_some_iff.2 h]
  rfl

/-- A graph with triples is kept under its name. -/
theorem entry_of_triples (h : (store.triples (some name)).entries ≠ []) :
    (name, store.triples (some name)) ∈ store.named.entries := by
  cases hget : store.named.get? name with
  | none =>
    have hempty : store.triples (some name) = .empty := by
      show (store.named.get? name).getD .empty = _
      rw [hget]
      rfl
    rw [hempty] at h
    exact absurd rfl h
  | some ts =>
    have hentry : (name, ts) ∈ store.named.entries := AscendingMap.get?_eq_some_iff.1 hget
    rwa [triples_of_entry hentry]

/-- The names that are listed are those of the graphs with a quad. -/
theorem mem_graphNames : name ∈ store.graphNames ↔ ∃ q ∈ store.quads, q.graph = some name := by
  constructor
  · intro hname
    obtain ⟨⟨name', ts⟩, hentry, rfl⟩ := List.mem_map.1 hname
    obtain ⟨⟨t, u⟩, ht⟩ := List.exists_mem_of_ne_nil _ (store.inhabited _ hentry)
    refine ⟨t.inGraph (some name'), mem_quads.2 ?_, rfl⟩
    show t ∈ (store.triples (some name')).keys
    rw [triples_of_entry hentry]
    exact AscendingMap.mem_keys_iff.2 ht
  · rintro ⟨q, hq, hgraph⟩
    rw [mem_quads, hgraph, mem_triples_some] at hq
    obtain ⟨ts, hentry, -⟩ := hq
    exact List.mem_map.2 ⟨(name, ts), hentry, rfl⟩

theorem graphNames_ordered (store : GraphStore) :
    store.graphNames.Pairwise fun n n' => compare n n' = .lt :=
  store.named.keys_ordered

/-- Stores with the same quads are the same. -/
theorem ext_quads {store store' : GraphStore} (h : ∀ q, q ∈ store.quads ↔ q ∈ store'.quads) :
    store = store' := by
  have htriples (graph : Option Term) : store.triples graph = store'.triples graph := by
    refine AscendingMap.ext_keys fun t => ?_
    have ht : t.inGraph graph ∈ store.quads ↔ t.inGraph graph ∈ store'.quads := h _
    rwa [mem_quads, mem_quads] at ht
  have hentry {s s' : GraphStore} {name : Term} {ts : TripleSet}
      (hsame : s.triples (some name) = s'.triples (some name))
      (hts : (name, ts) ∈ s.named.entries) : (name, ts) ∈ s'.named.entries := by
    rw [triples_of_entry hts] at hsame
    have hnonempty : (s'.triples (some name)).entries ≠ [] := hsame ▸ s.inhabited _ hts
    exact hsame ▸ entry_of_triples hnonempty
  have hnamed : store.named = store'.named := by
    refine AscendingMap.ext_get? fun name => Option.ext fun ts => ?_
    rw [AscendingMap.get?_eq_some_iff, AscendingMap.get?_eq_some_iff]
    exact ⟨hentry (htriples (some name)), hentry (htriples (some name)).symm⟩
  have hdefault : store.defaultGraph = store'.defaultGraph := htriples none
  obtain ⟨default, named, inhabited⟩ := store
  subst hnamed hdefault
  rfl

theorem nodup_quads (store : GraphStore) : store.quads.Nodup :=
  QuadStore.nodup_quads ⟨store.quads, store.quads_ordered⟩

/-! ## As one list of quads -/

/-- The store as one list of quads. -/
def flat (store : GraphStore) : QuadStore := ⟨store.quads, store.quads_ordered⟩

theorem eq_flat {other : QuadStore} (h : ∀ q, q ∈ store.quads ↔ q ∈ other.quads) :
    store.flat = other := by
  obtain ⟨quads, ordered⟩ := other
  obtain rfl : store.quads = quads := QuadStore.eq_of_ordered store.quads_ordered ordered h
  rfl

theorem flat_ofList (qs : List Quad) : (ofList qs).flat = QuadStore.ofList qs :=
  eq_flat fun q => by rw [mem_quads_ofList, QuadStore.mem_ofList]

theorem flat_graphNames (store : GraphStore) : store.flat.graphNames = store.graphNames := by
  refine eq_of_strictly_ordered (fun _ _ => Std.OrientedCmp.not_lt_of_lt)
    store.flat.graphNames_ordered store.graphNames_ordered fun name => ?_
  rw [mem_graphNames, QuadStore.mem_graphNames]
  rfl

/-- The store by graphs answers as the store that is one list of its quads. -/
theorem flat_dataset (store : GraphStore) : store.flat.dataset = store.dataset := by
  have hscan (r : ScanRequest) : store.flat.select r = store.scan r := (store.scan_eq r).symm
  unfold dataset QuadStore.dataset
  simp only [hscan, flat_graphNames]

/-! ## Histories -/

/-- A call that inserts: a triple into the default graph or into a named one, or a quad. -/
inductive Insertion where
  | default (t : Triple)
  | named (name : Term) (t : Triple)
  | quad (q : Quad)

namespace Insertion

/-- The quad that a call inserts. -/
def inserted : Insertion → Quad
  | default t => t.inGraph none
  | named name t => t.inGraph (some name)
  | quad q => q

/-- What a call returns, and the store after it. -/
def run (store : GraphStore) : Insertion → Bool × GraphStore
  | default t => store.insert t
  | named name t => store.insertNamed name t
  | quad q => store.insertQuad q

/-- Every call inserts a quad. -/
theorem run_eq (store : GraphStore) (call : Insertion) :
    call.run store = store.insertQuad call.inserted := by
  cases call <;> rfl

end Insertion

/-- The store after some calls on the empty store. -/
def after (calls : List Insertion) : GraphStore :=
  calls.foldl (fun store call => (call.run store).2) empty

theorem after_eq (calls : List Insertion) : after calls = ofList (calls.map (·.inserted)) := by
  simp only [after, ofList, List.foldl_map, Insertion.run_eq]

/-- **A store holds what was inserted.** Take any calls on the empty store and the quads that they
inserted. A further call tells whether its quad is not among them. The size is the number of
distinct ones, and the store is empty exactly if there are none. The graph names are those of the
quads in named graphs, in strictly ascending order. A scan lists the quads that the question
selects, each once, in strictly ascending order: by graph, then by subject, predicate and object.
Other calls that inserted the same quads have made the same store. -/
theorem holds_what_was_inserted (calls : List Insertion) :
    let quads := calls.map (·.inserted)
    let store := after calls
    (∀ call : Insertion, (call.run store).1 = true ↔ call.inserted ∉ quads) ∧
      store.size = quads.eraseDups.length ∧ (store.isEmpty = true ↔ quads = []) ∧
      (store.graphNames.Pairwise (compare · · = .lt) ∧
        ∀ name, name ∈ store.graphNames ↔ ∃ q ∈ quads, q.graph = some name) ∧
      (∀ r, (store.scan r).Pairwise (Quad.order · · = .lt) ∧
        ∀ q, q ∈ store.scan r ↔ q ∈ quads ∧ r.selects q = true) ∧
      ∀ others : List Insertion, (∀ q, q ∈ others.map (·.inserted) ↔ q ∈ quads) →
        after others = store := by
  intro quads store
  have hmem (q : Quad) : q ∈ store.quads ↔ q ∈ quads := by
    show q ∈ (after calls).quads ↔ _
    rw [after_eq, mem_quads_ofList]
  have hperm : store.quads.Perm quads.eraseDups := by
    refine (List.perm_ext_iff_of_nodup store.nodup_quads (nodup_eraseDups quads)).2 fun q => ?_
    rw [hmem, List.mem_eraseDups]
  have hsize : store.size = quads.eraseDups.length := store.length_quads.symm.trans hperm.length_eq
  refine ⟨fun call => ?_, hsize, ?_, ⟨store.graphNames_ordered, fun name => ?_⟩,
    fun r => ⟨store.scan_ordered r, fun q => ?_⟩, fun others hothers => ?_⟩
  · rw [Insertion.run_eq, insertQuad_isNew, hmem]
  · rw [isEmpty, beq_iff_eq, ← store.length_quads, List.length_eq_zero_iff]
    simp only [List.eq_nil_iff_forall_not_mem, hmem]
  · rw [mem_graphNames]
    simp only [hmem]
  · rw [mem_scan, hmem]
  · refine ext_quads fun q => ?_
    rw [after_eq, mem_quads_ofList, hothers, hmem]

namespace Instance

/-- Three calls for two quads: a triple in a named graph, again as a quad, and in the default
graph. -/
def loops : List Insertion :=
  let loop : Triple := ⟨.iri "a", .iri "b", .iri "a"⟩
  [.named (.iri "g") loop, .quad (loop.inGraph (some (.iri "g"))), .default loop]

end Instance

open GraphStore.Instance in
theorem holds_what_was_inserted_loops :
    (after loops).size = 2 ∧ (after loops).graphNames = [.iri "g"] ∧
      after loops.reverse = after loops ∧
      (∀ q, q ∈ (after loops).scan ⟨some (.iri "a"), none, none, .default⟩ ↔
        q = ⟨.iri "a", .iri "b", .iri "a", none⟩) ∧
      (after loops).scan ⟨some (.iri "b"), none, none, .default⟩ = [] ∧
      ∀ q, q ∈ (after loops).scan ⟨none, none, none, .anyNamed⟩ ↔
        q = ⟨.iri "a", .iri "b", .iri "a", some (.iri "g")⟩ := by
  obtain ⟨-, hsize, -, -, hscan, hothers⟩ := holds_what_was_inserted loops
  have hquads (q : Quad) : q ∈ loops.map (·.inserted) ↔
      q = ⟨.iri "a", .iri "b", .iri "a", some (.iri "g")⟩ ∨
        q = ⟨.iri "a", .iri "b", .iri "a", none⟩ := by
    simp [loops, Insertion.inserted, Triple.inGraph]
  refine ⟨hsize.trans (by decide), rfl, hothers loops.reverse fun q => ?reversed,
    fun q => ?starting, List.eq_nil_iff_forall_not_mem.2 fun q => ?absent, fun q => ?named⟩
  case reversed => rw [List.map_reverse, List.mem_reverse]
  case starting =>
    rw [(hscan _).2, hquads, ScanRequest.selects_iff]
    constructor
    · rintro ⟨rfl | rfl, hgraph, -⟩
      · cases hgraph
      · rfl
    · rintro rfl
      exact ⟨.inr rfl, rfl, fun _ h => Option.some.inj h, nofun, nofun⟩
  case absent =>
    rw [(hscan _).2, hquads, ScanRequest.selects_iff]
    rintro ⟨rfl | rfl, -, hsubject, -⟩ <;> exact absurd (hsubject _ rfl) (by decide)
  case named =>
    rw [(hscan _).2, hquads, ScanRequest.selects_iff]
    constructor
    · rintro ⟨rfl | rfl, ⟨name, hgraph⟩, -⟩
      · rfl
      · cases hgraph
    · rintro rfl
      exact ⟨.inl rfl, ⟨_, rfl⟩, nofun, nofun, nofun⟩

end GraphStore

end TripleQuery
