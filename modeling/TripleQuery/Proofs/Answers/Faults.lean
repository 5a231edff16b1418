import TripleQuery.Proofs.Answers.Hearing
import TripleQuery.Proofs.Pipe.Compile

/-!
# Failures of the dataset

A dataset in which one operation fails gives the same rows up to the call in which a run gets to
that operation; this call reports the failure, and there are no rows after it
(`Query.fault_surfaces`). A run does not say which operations it gets to. It hears answers, though,
and as nothing but the one operation answers differently, it is there that the run over the failing
dataset first hears something else.
-/

namespace TripleQuery

/-! ## One operation that fails -/

/-- An operation on a dataset, by number: opening a scan, a step of a scan, the last one being that
which finds the end, or listing the graphs. -/
inductive Operation where
  | opening (scan : Nat)
  | item (scan step : Nat)
  | listing (number : Nat)
deriving DecidableEq

/-- The items of a scan with a failure in the place of one step. -/
def failItem (e : DatasetError) : Nat → List CursorItem → List CursorItem
  | 0, items => .fault e :: items.tail
  | _ + 1, [] => []
  | step + 1, item :: rest => item :: failItem e step rest

namespace Dataset

/-- The dataset, but for one operation that fails. -/
def failingAt (d : Dataset) (o : Operation) (e : DatasetError) : Dataset where
  scan k r :=
    match o with
    | .opening scan => if k = scan then { d.scan k r with result := .error e } else d.scan k r
    | .item scan step =>
      if k = scan then { d.scan k r with result := (d.scan k r).result.map (failItem e step) }
      else d.scan k r
    | .listing _ => d.scan k r
  graphNames k :=
    match o with
    | .listing number =>
      if k = number then { d.graphNames k with result := .error e } else d.graphNames k
    | _ => d.graphNames k

end Dataset

section Alike

variable {c : Comparison} {e : DatasetError} (he : c.fault = some e)

include he

theorem failItem_alike (step : Nat) (items : List CursorItem) :
    ItemsAlike c items (failItem e step items) := by
  induction step generalizing items with
  | zero =>
    by_cases hhead : items.head? = some (.fault e)
    · obtain ⟨rest, rfl⟩ := List.head?_eq_some_iff.1 hhead
      exact .same _
    · exact .fault he hhead _
  | succ step ih =>
    cases items with
    | nil => exact .same []
    | cons item rest => exact .cons item (ih rest)

theorem Reply.error_alike {α : Type} {R : α → α → Prop} (r : Reply α) :
    r.Alike c R { r with result := .error e } := by
  obtain ⟨cancels, result⟩ := r
  by_cases hsame : (⟨cancels, result⟩ : Reply α) = ⟨cancels, .error e⟩
  · rw [hsame]
    exact .error cancels e
  · exact .fault he cancels hsame

theorem Dataset.failingAt_alike (d : Dataset) (o : Operation) : d.Alike c (d.failingAt o e) := by
  have hscan (k : Nat) (r : ScanRequest) : (d.scan k r).Alike c (ItemsAlike c) (d.scan k r) :=
    .refl c .same _
  have hnames (k : Nat) : (d.graphNames k).Alike c Eq (d.graphNames k) := .refl c (fun _ => rfl) _
  cases o with
  | opening scan =>
    refine ⟨fun k r => ?_, hnames⟩
    unfold failingAt
    dsimp only
    split
    · exact Reply.error_alike he _
    · exact hscan k r
  | item scan step =>
    refine ⟨fun k r => ?_, hnames⟩
    unfold failingAt
    dsimp only
    split
    · cases d.scan k r with
      | mk cancels result =>
        cases result with
        | ok items => exact .ok cancels (failItem_alike he step items)
        | error e' => exact .error cancels e'
    · exact hscan k r
  | listing number =>
    refine ⟨hscan, fun k => ?_⟩
    unfold failingAt
    dsimp only
    split
    · exact Reply.error_alike he _
    · exact hnames k

end Alike

/-- The operation comes between two states of a run: its number is one of those that are counted in
between. The steps of a scan are not counted. -/
def Operation.Between (o : Operation) (state state' : RunState) : Prop :=
  match o with
  | .opening scan => state.scans ≤ scan ∧ scan < state'.scans
  | .listing number => state.listings ≤ number ∧ number < state'.listings
  | .item .. => False

/-- If the operation that fails is counted, then the failure is heard. -/
theorem Dataset.hears_failingAt {d : Dataset} {o : Operation} {e : DatasetError}
    {state state' : RunState} {heard : List Heard}
    (h : state.Told (d.failingAt o e) heard state') (ho : o.Between state state') :
    Hears e heard := by
  cases o with
  | opening scan =>
    obtain ⟨r, hr⟩ := h.opening_mem ho.1 ho.2
    refine ⟨_, hr, ?_⟩
    show ((d.failingAt (.opening scan) e).scan scan r).failure? = some e
    unfold failingAt
    dsimp only
    rw [if_pos rfl]
    rfl
  | listing number =>
    refine ⟨_, h.names_mem ho.1 ho.2, ?_⟩
    show ((d.failingAt (.listing number) e).graphNames number).failure? = some e
    unfold failingAt
    dsimp only
    rw [if_pos rfl]
    rfl
  | item => exact ho.elim

/-! ## Failures that are reported -/

namespace Session

/-- What the query of a session gives when it is asked for some rows, one after the other, and the
session after that. -/
def ask (ctx : Context) (s : Session) (fuels : List Nat) : List Response × Session :=
  s.run ctx (fuels.map .next)

/-- Given enough fuel, the query fails when it is asked for a row, and then it has no more. -/
def Fails (ctx : Context) (s : Session) (e : ExecError) : Prop :=
  ∃ n, ∀ fuel, n ≤ fuel → ∀ more : List Nat,
    (s.ask ctx (fuel :: more)).1 = .row (.failed e) :: more.map fun _ => .row (.value none)

theorem ask_closed (ctx : Context) {s : Session} (h : s.query.closed = true) (fuels : List Nat) :
    (s.ask ctx fuels).1 = fuels.map fun _ => .row (.value none) := by
  have hcall (fuel : Nat) : s.call ctx (.next fuel) = (.row (.value none), s) := by
    show (Response.row (s.query.next ctx fuel s.state s.log).outcome, after _) = _
    rw [Query.next, if_pos h]
    rfl
  unfold ask
  induction fuels with
  | nil => rfl
  | cons fuel fuels ih => simp only [List.map_cons, run, hcall, ih]

/-- **Failures are reported.** A query that hears a failure when it is asked for a row fails with
it. -/
theorem fails_of_hears (ctx : Context) {s : Session} {fuel : Nat} {e : DatasetError}
    (h : Hears e (s.hearing ctx [fuel])) : s.Fails ctx (.dataset e) := by
  rw [hearing, hearing, List.append_nil] at h
  obtain ⟨n, hn⟩ := Query.next_surfaces ctx s.log h
  refine ⟨n, fun fuel hfuel more => ?_⟩
  have hfailed := hn fuel hfuel
  have hclosed : (s.call ctx (.next fuel)).2.query.closed = true :=
    Query.next_closed (.inr ⟨_, hfailed⟩)
  have hmore := ask_closed ctx hclosed more
  show Response.row (s.query.next ctx fuel s.state s.log).outcome ::
    ((s.call ctx (.next fuel)).2.ask ctx more).1 = _
  rw [hfailed, hmore]

/-! ## Two runs -/

/-- Two sessions over different datasets hear the same when they are asked for some rows, and give
the same responses; afterwards they are at the same point. -/
structure Matches (c : Comparison) (ctx ctx' : Context) (s s' : Session) (fuels : List Nat) :
    Prop where
  heard : s.hearing ctx fuels = s'.hearing ctx' fuels
  responses : (s'.ask ctx' fuels).1 = (s.ask ctx fuels).1
  after : (s.ask ctx fuels).2.Alike c (s'.ask ctx' fuels).2

/-- Two sessions at the same point match, or they do so up to a call in which the second hears the
failure. -/
theorem ask_lockstep {c : Comparison} {ctx : Context} {d : Dataset} (hd : ctx.dataset.Alike c d)
    {s s' : Session} (h : s.Alike c s') (fuels : List Nat) :
    Matches c ctx (ctx.given d) s s' fuels ∨
      ∃ before fuel rest e, fuels = before ++ fuel :: rest ∧ c.fault = some e ∧
        Matches c ctx (ctx.given d) s s' before ∧
        Parted e ((s.ask ctx before).2.hearing ctx [fuel])
          ((s'.ask (ctx.given d) before).2.hearing (ctx.given d) [fuel]) := by
  induction fuels generalizing s s' with
  | nil => exact .inl ⟨rfl, rfl, h⟩
  | cons fuel fuels ih =>
    obtain ⟨query', state', log'⟩ := s'
    obtain ⟨hquery, hstate, hlog⟩ := h
    obtain rfl : state' = s.state := hstate
    rcases Query.next_lockstep hd fuel hquery s.state hlog with ⟨hsame, ha⟩ | ⟨e, he, hparted⟩
    · -- the first call is answered alike, and the others go on from there
      have hfirst {fuels : List Nat}
          (hrest : Matches c ctx (ctx.given d) (s.call ctx (.next fuel)).2
            (Session.call (ctx.given d) ⟨query', s.state, log'⟩ (.next fuel)).2 fuels) :
          Matches c ctx (ctx.given d) s ⟨query', s.state, log'⟩ (fuel :: fuels) := by
        refine ⟨?_, ?_, hrest.after⟩
        · exact congrArg₂ (· ++ ·) hsame hrest.heard
        · exact congrArg₂ List.cons (congrArg Response.row ha.outcome) hrest.responses
      have hcall : (s.call ctx (.next fuel)).2.Alike c
          (Session.call (ctx.given d) ⟨query', s.state, log'⟩ (.next fuel)).2 :=
        ⟨ha.subject, ha.state, ha.log⟩
      rcases ih hcall with hrest | ⟨before, fuel', rest, e, rfl, he, hrest, hparted⟩
      · exact .inl (hfirst hrest)
      · exact .inr ⟨fuel :: before, fuel', rest, e, rfl, he, hfirst hrest, hparted⟩
    · exact .inr ⟨[], fuel, fuels, e, rfl, he, ⟨rfl, rfl, hquery, rfl, hlog⟩, hparted.append [] []⟩

/-- Two runs of a session over different datasets are the same, and so is what they hear. -/
structure Coincide (ctx ctx' : Context) (s : Session) (fuels : List Nat) : Prop where
  heard : s.hearing ctx' fuels = s.hearing ctx fuels
  responses : (s.ask ctx' fuels).1 = (s.ask ctx fuels).1
  state : (s.ask ctx' fuels).2.state = (s.ask ctx fuels).2.state
  log : (s.ask ctx' fuels).2.log = (s.ask ctx fuels).2.log

theorem Matches.coincide {e : DatasetError} {ctx ctx' : Context} {s : Session} {fuels : List Nat}
    (h : Matches (.upTo e) ctx ctx' s s fuels) : s.Coincide ctx ctx' fuels := by
  refine ⟨h.heard.symm, h.responses, h.after.state, ?_⟩
  have hlog := h.after.log
  rw [Comparison.view_upTo, Comparison.view_upTo] at hlog
  exact (Array.ext' hlog).symm

end Session

/-! ## Failures of one operation -/

theorem Query.ofOp_plain {op : Op} (hop : op.Plain) (ctx : Context) :
    ofOp op ctx = (.ok ⟨op.pipe ctx ctx.activeGraph .identity, false⟩, []) := by
  have hcompiled : compile op ctx .identity = .ok (op.pipe ctx ctx.activeGraph .identity) :=
    compile_plain hop ctx ctx.activeGraph .identity
  unfold ofOp
  rw [hcompiled]
  rfl

theorem Query.ofOp_given (op : Op) (ctx : Context) (d : Dataset) :
    ofOp op (ctx.given d) = ofOp op ctx := by
  unfold ofOp
  rw [compile_given]

/-- **Failures of the dataset surface.** Take an operator tree without extensions, and a dataset
like another one but for one operation that fails. Whatever rows are asked for, either the runs over
both are the same and hear the same, or they are so up to some call. In that call the first thing
that is heard otherwise is the failure, the call reports it, and there are no rows after it. A call
in which the run counts the operation reports the failure like that, and so does a call that hears
any other one. -/
theorem Query.fault_surfaces {op : Op} (hop : op.Plain) (ctx : Context) (o : Operation)
    (e : DatasetError) (state : RunState) :
    let faulty := ctx.given (ctx.dataset.failingAt o e)
    ∃ q, Query.ofOp op ctx = (.ok q, []) ∧ Query.ofOp op faulty = (.ok q, []) ∧
      let s : Session := ⟨q, state, #[]⟩
      (∀ fuels, s.Coincide ctx faulty fuels ∨
        ∃ before fuel rest, fuels = before ++ fuel :: rest ∧ s.Coincide ctx faulty before ∧
          Parted e ((s.ask ctx before).2.hearing ctx [fuel])
            ((s.ask faulty before).2.hearing faulty [fuel]) ∧
          (s.ask faulty before).2.Fails faulty (.dataset e)) ∧
      (∀ before fuel, o.Between (s.ask faulty before).2.state
          ((s.ask faulty before).2.ask faulty [fuel]).2.state →
        (s.ask faulty before).2.Fails faulty (.dataset e)) ∧
      ∀ before fuel e', Hears e' ((s.ask faulty before).2.hearing faulty [fuel]) →
        (s.ask faulty before).2.Fails faulty (.dataset e') := by
  intro faulty
  have hof := ofOp_plain hop ctx
  refine ⟨_, hof, (ofOp_given op ctx _).trans hof, ?_⟩
  intro s
  have hsurfaces (before : List Nat) (fuel : Nat) (e' : DatasetError)
      (h : Hears e' ((s.ask faulty before).2.hearing faulty [fuel])) :
      (s.ask faulty before).2.Fails faulty (.dataset e') :=
    Session.fails_of_hears faulty h
  have hcounted (before : List Nat) (fuel : Nat) (ho : o.Between (s.ask faulty before).2.state
      ((s.ask faulty before).2.ask faulty [fuel]).2.state) :
      (s.ask faulty before).2.Fails faulty (.dataset e) := by
    have htold := Session.hearing_replies faulty (s.ask faulty before).2 [fuel]
    exact hsurfaces before fuel e (Dataset.hears_failingAt htold ho)
  refine ⟨fun fuels => ?_, hcounted, hsurfaces⟩
  have hstart : s.Alike (.upTo e) s := ⟨⟨.refl _ _, rfl⟩, rfl, rfl⟩
  rcases Session.ask_lockstep (Dataset.failingAt_alike rfl ctx.dataset o) hstart fuels with
    hmatches | ⟨before, fuel, rest, e', hfuels, he, hmatches, hparted⟩
  · exact .inl hmatches.coincide
  · cases he
    obtain ⟨a, ha, hfault⟩ := hparted.hears
    have hfails := hsurfaces before fuel e ⟨a, ha, hfault⟩
    exact .inr ⟨before, fuel, rest, hfuels, hmatches.coincide, hparted, hfails⟩

namespace Faults

/-- A context over one quad. -/
def context : Context where
  dataset :=
    { scan := fun _ _ => .ok [.quad ⟨.iri "a", .iri "b", .iri "c", none⟩]
      graphNames := fun _ => .ok [] }
  extensions := .empty
  config := .standard
  activeGraph := .default

/-- Subjects and, where there is one, an object of theirs. -/
def query : Op :=
  .distinct (.leftJoin (.bgp [⟨.var ⟨"x"⟩, .term (.iri "b"), .var ⟨"y"⟩⟩])
    (.bgp [⟨.var ⟨"x"⟩, .term (.iri "b"), .var ⟨"z"⟩⟩]) none)

end Faults

open Faults in
theorem Query.fault_surfaces_probe :
    query.Plain ∧ ∃ q, ofOp query context = (.ok q, []) ∧
      (⟨q, .initial, #[]⟩ : Session).Fails
        (context.given (context.dataset.failingAt (.opening 1) (.storage "lost")))
        (.dataset (.storage "lost")) := by
  have hplain : query.Plain := ⟨trivial, trivial⟩
  obtain ⟨q, hq, -, -, hcounted, -⟩ :=
    fault_surfaces hplain context (.opening 1) (.storage "lost") .initial
  refine ⟨hplain, q, hq, hcounted [] 20 ?_⟩
  cases hq
  exact ⟨by decide, by decide⟩

end TripleQuery
