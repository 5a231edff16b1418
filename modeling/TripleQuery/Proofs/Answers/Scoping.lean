import TripleQuery.Proofs.Answers.Limits
import TripleQuery.Proofs.Pipe.Confined
import TripleQuery.Proofs.Solutions.Patterns

/-!
# Scopes of graphs

A query whose graphs all have constant names reads the active graph and the graphs it names
(`Op.graphs_confine`). Over two stores that hold the same quads there, whatever they hold
elsewhere, all sessions are the same: rows and errors, the counters, and the events.
-/

namespace TripleQuery

variable {graphs : Option Term → Prop} {ctx : Context} {d : Dataset}

/-! ## Sessions that stay in graphs -/

section Sessions

variable (hd : ctx.dataset.AgreeIn graphs d)

include hd

theorem Pipe.StaysIn.next {p : Pipe} (hp : p.StaysIn graphs) (fuel : Nat) (state : RunState)
    (log : Array Event) :
    p.next (ctx.given d) fuel state log = p.next ctx fuel state log ∧
      (p.next ctx fuel state log).subject.StaysIn graphs := by
  induction fuel generalizing p state log with
  | zero => exact ⟨rfl, hp⟩
  | succ fuel ih =>
    obtain ⟨hsame, hstays⟩ := hp.step hd none state
    rw [Pipe.next, Pipe.next, hsame]
    cases (p.step ctx none state).signal with
    | skip => exact ih hstays _ _
    | yield _ | done | fail _ | await => exact ⟨rfl, hstays⟩

namespace Query

omit hd in
theorem close_staysIn {q : Query} (hq : q.root.StaysIn graphs) : q.close.1.root.StaysIn graphs := by
  unfold close
  split
  · exact hq
  · exact hq.close

theorem next_staysIn {q : Query} (hq : q.root.StaysIn graphs) (fuel : Nat) (state : RunState)
    (log : Array Event) :
    q.next (ctx.given d) fuel state log = q.next ctx fuel state log ∧
      (q.next ctx fuel state log).subject.root.StaysIn graphs := by
  unfold next
  split
  · exact ⟨rfl, hq⟩
  · split
    · exact ⟨rfl, close_staysIn hq⟩
    · obtain ⟨hsame, hstays⟩ := hq.next hd fuel state log
      rw [hsame]
      dsimp only
      refine ⟨rfl, ?_⟩
      split
      · exact hstays
      · exact close_staysIn hstays
      · exact close_staysIn hstays
      · exact hstays

theorem first_staysIn {q : Query} (hq : q.root.StaysIn graphs) (fuel : Nat) (state : RunState)
    (log : Array Event) :
    q.first (ctx.given d) fuel state log = q.first ctx fuel state log ∧
      (q.first ctx fuel state log).subject.root.StaysIn graphs := by
  obtain ⟨hsame, hstays⟩ := next_staysIn hd hq fuel state log
  unfold first
  rw [hsame]
  refine ⟨rfl, ?_⟩
  dsimp only
  split
  · exact close_staysIn hstays
  · exact hstays

theorem collect_go_staysIn {q : Query} (hq : q.root.StaysIn graphs) (fuel rounds : Nat)
    (state : RunState) (log : Array Event) (rows : Array Binding) :
    collect.go (ctx.given d) fuel rounds q state log rows =
        collect.go ctx fuel rounds q state log rows ∧
      (collect.go ctx fuel rounds q state log rows).subject.root.StaysIn graphs := by
  induction rounds generalizing q state log rows with
  | zero => exact ⟨rfl, hq⟩
  | succ rounds ih =>
    obtain ⟨hsame, hstays⟩ := next_staysIn hd hq fuel state log
    rw [collect.go, collect.go, hsame]
    split
    · exact ih hstays _ _ _
    all_goals exact ⟨rfl, hstays⟩

end Query

theorem Session.call_staysIn {s : Session} (hs : s.query.root.StaysIn graphs) (c : Call) :
    s.call (ctx.given d) c = s.call ctx c ∧ (s.call ctx c).2.query.root.StaysIn graphs := by
  cases c with
  | next fuel =>
    obtain ⟨hsame, hstays⟩ := Query.next_staysIn hd hs fuel s.state s.log
    exact ⟨by simp only [call, hsame], hstays⟩
  | first fuel =>
    obtain ⟨hsame, hstays⟩ := Query.first_staysIn hd hs fuel s.state s.log
    exact ⟨by simp only [call, hsame], hstays⟩
  | collect fuel =>
    obtain ⟨hsame, hstays⟩ := Query.collect_go_staysIn hd hs fuel fuel s.state s.log #[]
    exact ⟨by simp only [call, Query.collect, hsame], hstays⟩
  | count fuel =>
    obtain ⟨hsame, hstays⟩ := Query.collect_go_staysIn hd hs fuel fuel s.state s.log #[]
    exact ⟨by simp only [call, Query.count, Query.collect, hsame], hstays⟩
  | close =>
    exact ⟨rfl, Query.close_staysIn hs⟩
  | cancel => exact ⟨rfl, hs⟩

/-- Sessions within the graphs are the same over both datasets. -/
theorem Session.run_staysIn {s : Session} (hs : s.query.root.StaysIn graphs) (calls : List Call) :
    s.run (ctx.given d) calls = s.run ctx calls := by
  induction calls generalizing s with
  | nil => rfl
  | cons c calls ih =>
    obtain ⟨hsame, hstays⟩ := call_staysIn hd hs c
    rw [run, run, hsame]
    dsimp only
    rw [ih hstays]

end Sessions

/-! ## Naming graphs -/

namespace Op

/-- All graphs that the operator matches patterns in have constant names, and it does not ask for
names of graphs. -/
def NamesGraphs : Op → Prop
  | bgp _ | quadPattern (.term _) _ | table _ => True
  | quadPattern (.var _) _ | datasetNames _ | extension _ | graph (.var _) _ => False
  | join l r | leftJoin l r _ | union l r => l.NamesGraphs ∧ r.NamesGraphs
  | filter _ s | graph (.term _) s | order _ s | project _ s | distinct s | slice _ _ s =>
    s.NamesGraphs

/-- The constants that name graphs in the operator, with repetitions. -/
def graphConstants : Op → List Term
  | bgp _ | quadPattern (.var _) _ | datasetNames _ | table _ | extension _ => []
  | quadPattern (.term name) _ => [name]
  | join l r | leftJoin l r _ | union l r => l.graphConstants ++ r.graphConstants
  | graph (.term name) s => name :: s.graphConstants
  | filter _ s | graph (.var _) s | order _ s | project _ s | distinct s | slice _ _ s =>
    s.graphConstants

/-- An operator stays in the active graph and in the graphs that it names. -/
theorem NamesGraphs.staysIn {op : Op} (hop : op.NamesGraphs) {g : ActiveGraph}
    (hactive : graphs g.name?) (hnamed : ∀ name ∈ op.graphConstants, graphs (some name)) :
    op.StaysIn graphs g := by
  induction op generalizing g with
  | bgp _ => exact hactive
  | quadPattern name _ =>
    cases name with
    | term name => exact hnamed name List.mem_cons_self
    | var v => cases hop
  | table _ => trivial
  | datasetNames | extension => cases hop
  | join l r ihl ihr | leftJoin l r _ ihl ihr | union l r ihl ihr =>
    exact ⟨ihl hop.1 hactive fun name h => hnamed name (List.mem_append_left _ h),
      ihr hop.2 hactive fun name h => hnamed name (List.mem_append_right _ h)⟩
  | graph name s ih =>
    cases name with
    | term name =>
      exact ih hop (hnamed name List.mem_cons_self)
        fun inner h => hnamed inner (List.mem_cons_of_mem name h)
    | var v => cases hop
  | filter _ s ih | order _ s ih | project _ s ih | distinct s ih | slice _ _ s ih =>
    exact ih hop hactive hnamed

end Op

/-! ## Stores that hold the same -/

namespace QuadStore

/-- Two stores hold the same triples in a graph. -/
def SameIn (graph : Option Term) (store store' : QuadStore) : Prop :=
  ∀ q : Quad, q.graph = graph → (q ∈ store.quads ↔ q ∈ store'.quads)

/-- A scan selects the same list from stores with the same quads to select, as both are sorted. -/
theorem select_eq {store store' : QuadStore} {r : ScanRequest}
    (h : ∀ q, r.selects q = true → (q ∈ store.quads ↔ q ∈ store'.quads)) :
    store.select r = store'.select r := by
  have hperm : (store.select r).Perm (store'.select r) := by
    refine (List.perm_ext_iff_of_nodup (store.nodup_quads.filter _)
      (store'.nodup_quads.filter _)).2 fun q => ?_
    exact mem_select.trans ((and_congr_left fun hq => h q hq).trans mem_select.symm)
  refine hperm.eq_of_pairwise (fun q q' _ _ hlt hgt => ?_) (store.ordered.filter _)
    (store'.ordered.filter _)
  have hself : q.order q = .lt := Std.TransCmp.lt_trans hlt hgt
  cases hself.symm.trans Std.ReflCmp.compare_self

/-- Stores that hold the same in some graphs answer scans of these alike. -/
theorem agreeIn {store store' : QuadStore} (h : ∀ g, graphs g → SameIn g store store') :
    store.dataset.AgreeIn graphs store'.dataset := by
  intro k r hr
  have hselect : store'.select r = store.select r := by
    refine (select_eq fun q hq => ?_).symm
    have htarget := (ScanRequest.selects_iff.1 hq).1
    cases ht : r.target with
    | default =>
      rw [ht] at hr htarget
      exact h none hr q htarget
    | named name =>
      rw [ht] at hr htarget
      exact h (some name) hr q htarget
    | anyNamed =>
      rw [ht] at hr
      cases hr
  show Reply.ok ((store'.select r).map CursorItem.quad) = .ok ((store.select r).map .quad)
  rw [hselect]

end QuadStore

/-! ## Confinement -/

/-- **Scopes confine.** Take an operator without extensions whose graphs have constant names, and
two stores that hold the same in the active graph and in each graph it names. Over both it compiles
to one query and is executed to the same rows or the same error; and whatever is done with the
query, the responses, the counters and the events are the same. -/
theorem Op.graphs_confine {op : Op} (hop : op.NamesGraphs) (ctx : Context)
    {store store' : QuadStore} (hactive : store.SameIn ctx.activeGraph.name? store')
    (hnamed : ∀ name ∈ op.graphConstants, store.SameIn (some name) store') :
    let here := ctx.given store.dataset
    let there := ctx.given store'.dataset
    ∃ q o, Query.ofOp op here = (.ok q, []) ∧ Query.ofOp op there = (.ok q, []) ∧
      o ≠ .stalled ∧ Executes here op o ∧ Executes there op o ∧
      ∀ state log calls,
        Session.run there ⟨q, state, log⟩ calls = Session.run here ⟨q, state, log⟩ calls := by
  intro here there
  -- the graphs that the stores have to agree on
  let graphs (g : Option Term) : Prop :=
    g = ctx.activeGraph.name? ∨ ∃ name ∈ op.graphConstants, g = some name
  have hstays : op.StaysIn graphs ctx.activeGraph :=
    hop.staysIn (.inl rfl) fun name h => .inr ⟨name, h, rfl⟩
  have hagree : here.dataset.AgreeIn graphs store'.dataset := by
    refine QuadStore.agreeIn fun g hg => ?_
    rcases hg with rfl | ⟨name, hname, rfl⟩
    · exact hactive
    · exact hnamed name hname
  have hq := Query.ofOp_plain hstays.plain here
  have hq' : Query.ofOp op there = (.ok ⟨op.pipe here here.activeGraph .identity, false⟩, []) :=
    (Query.ofOp_given op here store'.dataset).trans hq
  have hpipe : (op.pipe here here.activeGraph .identity).StaysIn graphs := by
    have hidentity : Seed.identity.StaysIn graphs := trivial
    exact Op.pipe_staysIn here hstays hidentity
  have hruns (state : RunState) (log : Array Event) (calls : List Call) :
      Session.run there ⟨⟨op.pipe here here.activeGraph .identity, false⟩, state, log⟩ calls =
        Session.run here ⟨⟨op.pipe here here.activeGraph .identity, false⟩, state, log⟩ calls :=
    Session.run_staysIn hagree hpipe calls
  have hdata : here.dataset = store.dataset := rfl
  obtain ⟨p, hp, hflow⟩ := compile_runs hstays.plain hdata none
  have hexecutes := hflow.executes hp
  refine ⟨_, _, hq, hq', ?_, hexecutes, ?_, hruns⟩
  · unfold Flow.outcome
    split <;> nofun
  · obtain ⟨n, hn⟩ := hexecutes
    refine ⟨n, fun fuel state hs => (hn fuel state hs).symm ▸ ?_⟩
    -- executing is a session with one call
    have hsame := congrArg Prod.fst (hruns state #[] [.collect fuel])
    have hanswer := Response.rows.inj (List.cons.inj hsame).1
    unfold execute
    rw [hq, hq']
    exact hanswer

namespace Scoping

open Instance

def g : Term := .iri "g"

/-- An edge in the default graph and one in a named graph. -/
def store : QuadStore := .ofList [⟨a, b, a, none⟩, ⟨a, b, b, some g⟩]

/-- The same edges, and one more in another graph. -/
def larger : QuadStore := store.insert ⟨a, b, a, some (.iri "h")⟩

/-- Edges, and where there are any, those in the named graph. -/
def withNamed : Op := .leftJoin edge (.graph (.term g) edge) none

end Scoping

open Instance Scoping in
theorem Op.graphs_confine_larger :
    store.quads ≠ larger.quads ∧
    ∃ q, Query.ofOp withNamed (context store .standard) = (.ok q, []) ∧
      (∃ rows, Executes (context store .standard) withNamed (.value rows) ∧
        Executes (context larger .standard) withNamed (.value rows)) ∧
      ∀ state log calls, Session.run (context larger .standard) ⟨q, state, log⟩ calls =
        Session.run (context store .standard) ⟨q, state, log⟩ calls := by
  have hop : withNamed.NamesGraphs := ⟨trivial, trivial⟩
  have hsame (graph : Option Term) (hgraph : graph ≠ some (.iri "h")) :
      store.SameIn graph larger := by
    intro q hq
    refine ⟨fun h => QuadStore.mem_insert.2 (.inr h), fun h => ?_⟩
    rcases QuadStore.mem_insert.1 h with rfl | h
    · exact absurd hq.symm hgraph
    · exact h
  have hnamed : ∀ name ∈ withNamed.graphConstants, store.SameIn (some name) larger := by
    intro name hname
    obtain rfl := List.mem_singleton.1 hname
    exact hsame _ (by decide)
  obtain ⟨q, o, hq, -, -, hexecutes, hexecutes', hruns⟩ :=
    graphs_confine hop (context store .standard) (hsame none (by decide)) hnamed
  have hrun : execute (context store .standard) 20 withNamed .initial =
      .value [.ofPairs [(x, a), (y, a)]] := rfl
  obtain rfl := hexecutes.eq_of_execute rfl hrun nofun
  exact ⟨by decide, q, hq, ⟨_, hexecutes, hexecutes'⟩, hruns⟩

end TripleQuery
