import TripleQuery.Proofs.Answers.Hearing
import TripleQuery.Proofs.Answers.Refusal

/-!
# Ended queries

A query that has ended holds on to nothing (`Query.ending_releases`). Its pipeline is closed, and
so is whatever was built and dropped on the way. The latter is no longer there to be looked at, so
it is observed by trackers: put around any stages of the pipeline, at any moment of the session,
they change nothing in what the calls return, and each of them is closed by the time the query is.
-/

namespace TripleQuery

namespace Session

/-- The session with a query that was just compiled. -/
def start (q : Query) (state : RunState) (events : List Event) : Session :=
  ⟨q, state, events.toArray⟩

/-- Nothing of the session is left open: its pipeline is closed, and so is every pipeline of which
the log says that it was built. -/
structure Released (s : Session) : Prop where
  root : s.query.root.Released
  reported (id : String) : announcements id s.log.toList ≤ reports id s.log.toList

/-- The session with another pipeline in the place of that of its query. -/
def watching (s : Session) (p : Pipe) : Session := { s with query := { s.query with root := p } }

/-- Whatever the pipeline consists of at this point is closed by the time the query is. Trackers
around any of its stages go unnoticed, and if the query is closed later, so are they, in between. -/
def ClosesStages (ctx : Context) (s : Session) : Prop :=
  ∀ p, s.query.root.Alike .untracked p → ∀ calls,
    ((s.watching p).run ctx calls).1 = (s.run ctx calls).1 ∧
      (s.run ctx calls).2.Alike .untracked ((s.watching p).run ctx calls).2 ∧
      (s.query.closed = false → (s.run ctx calls).2.query.closed = true →
        ∃ more : Array Event, ((s.watching p).run ctx calls).2.log = s.log ++ more ∧
          Covers more.toList p)

end Session

/-! ## Sessions of compiled queries -/

section Sessions

variable {ctx : Context}

theorem Session.released_of_closed {s : Session} (h : s.query.Keeps s.log [])
    (hclosed : s.query.closed = true) : s.Released := by
  refine ⟨h.released hclosed, fun id => ?_⟩
  have hreports := h.settles.reports id
  rw [Query.close, if_pos hclosed, List.append_nil] at hreports
  exact hreports

variable (hctx : ctx.extensions.Careful)

include hctx

/-- Nothing is owed to anyone when a compiled query starts. -/
theorem Query.ofOp_keeps {op : Op} {q : Query} {events : List Event}
    (hq : Query.ofOp op ctx = (.ok q, events)) : q.Keeps events.toArray [] := by
  have hbuilds := compile_builds op ctx hctx .identity trivial
  unfold Query.ofOp at hq
  dsimp only at hq
  cases hcompiled : (compile op ctx .identity).result with
  | error e =>
    rw [hcompiled] at hq
    cases hq
  | ok p =>
    rw [hcompiled] at hq
    cases hq
    refine ⟨hbuilds.tidy p hcompiled, ?_, nofun⟩
    have hsettles := hbuilds.settles
    rw [Compiled.owed, hcompiled] at hsettles
    exact hsettles

theorem Session.closesStages {s : Session} (h : s.query.Keeps s.log []) : s.ClosesStages ctx := by
  intro p hp calls
  have hwatched : s.Alike .untracked (s.watching p) := ⟨⟨hp, rfl⟩, rfl, rfl⟩
  obtain ⟨hresponses, hrun⟩ := run_alike (c := .untracked) rfl ctx hwatched calls
  refine ⟨hresponses, hrun, fun hopen hclosed => ?_⟩
  -- the trackers are due from here on, so the log starts anew
  have hanew : (s.watching p).anew.query.Keeps #[] p.close.2 := by
    have hopen' : (s.watching p).anew.query.closed = false := hopen
    refine ⟨(hp.kept).1 h.tidy, ?_, fun hc => absurd (hopen'.symm.trans hc) Bool.false_ne_true⟩
    rw [Query.close, if_neg (ne_true_of_eq_false hopen')]
    exact p.settles_close
  have hkept := run_keeps hctx (s := (s.watching p).anew) hanew calls
  have honto := run_onto ctx s.log (s.watching p).anew calls
  have hsame : (s.watching p).anew.onto s.log = s.watching p := anew_onto (s.watching p)
  rw [hsame] at honto
  refine ⟨((s.watching p).anew.run ctx calls).2.log, by rw [honto]; rfl, fun id => ?_⟩
  have hended : ((s.watching p).anew.run ctx calls).2.query.closed = true := by
    have hclosed' := hrun.query.closed.trans hclosed
    rw [honto] at hclosed'
    exact hclosed'
  have hreports := hkept.settles.reports id
  rw [Query.close, if_pos hended, List.append_nil] at hreports
  omega

/-- **An ended query has released everything.** Take a query whose realizations keep their contract,
over any dataset, and any calls of it. A call that ends the query closes it. Once it is closed,
nothing of its session is left open. And whatever its pipeline consists of at any point has been
closed by then. -/
theorem Query.ending_releases {op : Op} {q : Query} {events : List Event}
    (hq : Query.ofOp op ctx = (.ok q, events)) (state : RunState) (calls : List Call) :
    let s := ((Session.start q state events).run ctx calls).2
    (∀ c : Call, c.ends (s.call ctx c).1 = true → (s.call ctx c).2.query.closed = true) ∧
      (s.query.closed = true → s.Released) ∧ s.ClosesStages ctx := by
  have hkept : ((Session.start q state events).run ctx calls).2.query.Keeps
      ((Session.start q state events).run ctx calls).2.log [] :=
    Session.run_keeps hctx (s := .start q state events) (ofOp_keeps hctx hq) calls
  refine ⟨fun c => ?_, fun hclosed => ?_, ?_⟩
  · exact Session.call_ends
  · exact Session.released_of_closed hkept hclosed
  · exact Session.closesStages hctx hkept

end Sessions

namespace Ending

/-- A context with two realizations, one of which tracks its seed, over a graph with a scan that
comes to a failure behind a quad. -/
def context : Context where
  dataset :=
    { scan := fun _ _ => .ok [.quad ⟨.iri "a", .iri "b", .iri "c", some (.iri "g")⟩,
        .fault (.storage "torn")]
      graphNames := fun _ => .ok [.iri "g"] }
  extensions := ⟨[("kept", Realizer.track), ("range", Realizer.range)]⟩
  config := .standard
  activeGraph := .default

/-- A pattern in every graph, realized there. -/
def query : Op :=
  .graph (.var ⟨"g"⟩)
    (.join (.bgp [⟨.var ⟨"x"⟩, .term (.iri "b"), .var ⟨"y"⟩⟩]) (.extension ⟨"kept", .unit, 0⟩))

/-- The query, compiled. -/
def compiled : Query :=
  ⟨.graphs .created ⟨"g"⟩
    (.join (.bgp [⟨.var ⟨"x"⟩, .term (.iri "b"), .var ⟨"y"⟩⟩]) (.extension ⟨"kept", .unit, 0⟩))
    none .idle .identity, false⟩

theorem context_careful : context.extensions.Careful := by
  refine Registry.careful_of_entries fun e he => ?_
  rcases List.mem_cons.1 he with rfl | he
  · exact Realizer.track_careful
  · obtain rfl := List.mem_singleton.1 he
    exact Realizer.range_careful

end Ending

open Ending in
theorem Query.ending_releases_torn :
    let s := ((Session.start compiled .initial []).run context [.next 20, .next 20]).2
    s.query.closed = true ∧ s.Released ∧ 0 < reports "kept" s.log.toList := by
  have hq : ofOp query context = (.ok compiled, []) := rfl
  obtain ⟨hends, -⟩ := ending_releases context_careful hq .initial [.next 20]
  obtain ⟨-, hreleased, -⟩ := ending_releases context_careful hq .initial [.next 20, .next 20]
  have hclosed := hends (.next 20) rfl
  have hbuilt : 0 < announcements "kept"
      ((Session.start compiled .initial []).run context [.next 20, .next 20]).2.log.toList := by
    decide
  have hreported := (hreleased hclosed).reported "kept"
  exact ⟨hclosed, hreleased hclosed, Nat.lt_of_lt_of_le hbuilt hreported⟩

end TripleQuery
