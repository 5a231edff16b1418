import TripleQuery.Exec.Run
import TripleQuery.Proofs.Pipe.Alike
import TripleQuery.Proofs.Pipe.Blocking
import TripleQuery.Proofs.Pipe.Heard

/-!
# Runs in lockstep

Two alike pipelines over two datasets take alike steps as long as they hear the same
(`Pipe.Alike.lockstep`). Once the second one hears a failure where the first one hears something
else, it comes to that failure and to nothing before. Whatever failure a pipeline hears, it fails
with it; no stage takes it for an end, or drops it.
-/

namespace TripleQuery

/-! ## Contexts and datasets -/

namespace Context

variable (ctx : Context) (d : Dataset)

/-- The context given another dataset. -/
def given : Context := { ctx with dataset := d }

@[simp] theorem given_dataset : (ctx.given d).dataset = d := rfl

@[simp] theorem given_config : (ctx.given d).config = ctx.config := rfl

@[simp] theorem given_maxRows : (ctx.given d).maxRows = ctx.maxRows := rfl

theorem given_inGraph (g : ActiveGraph) : (ctx.given d).inGraph g = (ctx.inGraph g).given d := rfl

end Context

/-- Compiling asks the dataset nothing. -/
theorem compile_given (op : Op) (ctx : Context) (d : Dataset) (seed : Seed) :
    compile op (ctx.given d) seed = compile op ctx seed := by
  induction op generalizing ctx seed with
  | bgp | quadPattern | datasetNames | table | extension => rfl
  | join l r ihl ihr =>
    rw [compile, compile]
    simp only [ihl, ihr]
  | leftJoin l r condition ihl ihr =>
    rw [compile, compile]
    simp only [ihl, ihr]
    rfl
  | union l r ihl ihr =>
    rw [compile, compile]
    simp only [funext (ihl ctx), funext (ihr ctx)]
    rfl
  | filter e sub ih =>
    rw [compile, compile]
    simp only [funext (ih ctx)]
    rfl
  | graph name sub ih =>
    cases name with
    | term name => exact ih (ctx.inGraph (.named name)) seed
    | var v => rfl
  | order keys sub ih | project keys sub ih | slice _ _ sub ih =>
    rw [compile, compile]
    simp only [ih]
  | distinct sub ih =>
    rw [compile, compile]
    simp only [ih]
    rfl

section Replies

variable (c : Comparison)

/-- Two replies are the same, or the second one is the failure. -/
inductive Reply.Alike {α : Type} (R : α → α → Prop) : Reply α → Reply α → Prop where
  | ok (cancels : Bool) {x y : α} (h : R x y) : Alike R ⟨cancels, .ok x⟩ ⟨cancels, .ok y⟩
  | error (cancels : Bool) (e : DatasetError) : Alike R ⟨cancels, .error e⟩ ⟨cancels, .error e⟩
  | fault {e : DatasetError} (he : c.fault = some e) {r : Reply α} (cancels : Bool)
    (h : r ≠ ⟨cancels, .error e⟩) : Alike R r ⟨cancels, .error e⟩

/-- Two datasets give alike replies. -/
structure Dataset.Alike (d d' : Dataset) : Prop where
  scan : ∀ k r, (d.scan k r).Alike c (ItemsAlike c) (d'.scan k r)
  graphNames : ∀ k, (d.graphNames k).Alike c Eq (d'.graphNames k)

theorem Reply.Alike.refl {α : Type} {R : α → α → Prop} (hR : ∀ x, R x x) (r : Reply α) :
    r.Alike c R r := by
  obtain ⟨cancels, result⟩ := r
  cases result with
  | ok x => exact .ok cancels (hR x)
  | error e => exact .error cancels e

theorem Dataset.Alike.refl (d : Dataset) : d.Alike c d :=
  ⟨fun k r => .refl c .same (d.scan k r), fun k => .refl c (fun _ => rfl) (d.graphNames k)⟩

/-- A reply that is not the failure is not heard as one. -/
theorem Reply.heard_ne {α : Type} {r : Reply α} {cancels : Bool} {e : DatasetError}
    (h : r ≠ ⟨cancels, .error e⟩) : (r.cancels, r.failure?) ≠ (cancels, some e) := by
  obtain ⟨cancels', result⟩ := r
  cases result with
  | ok x => nofun
  | error e' =>
    rintro heq
    cases heq
    exact h rfl

end Replies

/-! ## Steps in lockstep -/

/-- Two runs have heard the same up to a point, where the second hears the failure. -/
def Parted (e : DatasetError) (heard heard' : List Heard) : Prop :=
  ∃ before a after a' after', a ≠ a' ∧ a'.failure? = some e ∧
    heard = before ++ a :: after ∧ heard' = before ++ a' :: after'

namespace Parted

variable {e : DatasetError} {heard heard' : List Heard}

theorem one {a a' : Heard} (hne : a ≠ a') (he : a'.failure? = some e) : Parted e [a] [a'] :=
  ⟨[], a, [], a', [], hne, he, rfl, rfl⟩

theorem append (h : Parted e heard heard') (more more' : List Heard) :
    Parted e (heard ++ more) (heard' ++ more') := by
  obtain ⟨before, a, after, a', after', hne, he, rfl, rfl⟩ := h
  refine ⟨before, a, after ++ more, a', after' ++ more', hne, he, ?_, ?_⟩ <;>
    simp only [List.append_assoc, List.cons_append]

theorem prepend (h : Parted e heard heard') (same : List Heard) :
    Parted e (same ++ heard) (same ++ heard') := by
  obtain ⟨before, a, after, a', after', hne, he, rfl, rfl⟩ := h
  refine ⟨same ++ before, a, after, a', after', hne, he, ?_, ?_⟩ <;>
    rw [List.append_assoc]

/-- The failure has been heard. -/
theorem hears (h : Parted e heard heard') : ∃ a ∈ heard', a.failure? = some e := by
  obtain ⟨before, a, after, a', after', -, he, -, rfl⟩ := h
  exact ⟨a', List.mem_append_right _ List.mem_cons_self, he⟩

end Parted

section Lockstep

variable (c : Comparison) (ctx : Context) (scope : Option SharedRows)

/-- Two steps come to the same and leave alike pipelines; if the second waits, its pipeline is
blocked. -/
structure Step.Alike (s s' : Step) : Prop where
  signal : s'.signal = s.signal
  pipe : s.pipe.Alike c s'.pipe
  events : c.view s.events = c.view s'.events
  state : s'.state = s.state
  waits : s'.signal = .await → s'.events.any Event.isRelease = false ∧
    ∀ shared, scope = some shared → Blocked ctx shared.clear s'.pipe

/-- Two steps hear the same and are alike, or the second one hears the failure; and the second one
fails with every failure that it hears. -/
structure Lockstep (s s' : Step) (heard heard' : List Heard) : Prop where
  surfaces : ∀ a ∈ heard', ∀ e, a.failure? = some e → s'.Fails ctx (.dataset e)
  parts : (heard = heard' ∧ Step.Alike c ctx scope s s') ∨
    ∃ e, c.fault = some e ∧ Parted e heard heard'

/-- Besides, the second step is an action of its own stage: it does not wait. -/
structure Acting (s s' : Step) (heard heard' : List Heard) : Prop
    extends Lockstep c ctx scope s s' heard heard' where
  acts : s'.signal ≠ .await

end Lockstep

section Steps

variable {c : Comparison} {ctx : Context} {scope : Option SharedRows}

theorem Step.Fails.asks_nil {s : Step} {e : ExecError} (h : s.Fails ctx e)
    {ask : Binding → RunState → List Heard} : s.asks ask = [] := by
  unfold asks
  rcases h with hfail | ⟨hskip, -⟩
  · rw [hfail]
  · rw [hskip]

section Acting

variable {s s' : Step} {heard heard' : List Heard}

namespace Acting

/-- Steps with the same signal between alike pipelines. -/
theorem told {p p' : Pipe} (hp : p.Alike c p') {signal : Signal} (hs : signal ≠ .await)
    {events : List Event} {state : RunState}
    (hheard : ∀ a ∈ heard, ∀ e, a.failure? = some e → signal = .fail (.dataset e)) :
    Acting c ctx scope ⟨signal, p, events, state⟩ ⟨signal, p', events, state⟩ heard heard where
  surfaces a ha e he := .inl (hheard a ha e he)
  parts := .inl ⟨rfl, rfl, hp, rfl, rfl, fun h => absurd h hs⟩
  acts := hs

/-- Steps that ask the dataset nothing. -/
theorem same {p p' : Pipe} (hp : p.Alike c p') {signal : Signal} (hs : signal ≠ .await)
    {events : List Event} {state : RunState} :
    Acting c ctx scope ⟨signal, p, events, state⟩ ⟨signal, p', events, state⟩ [] [] :=
  told hp hs fun _ ha => absurd ha List.not_mem_nil

/-- Steps that get an answer other than a failure. -/
theorem answered {p p' : Pipe} (hp : p.Alike c p') {signal : Signal} (hs : signal ≠ .await)
    {events : List Event} {state : RunState} {a : Heard} (ha : a.failure? = none) :
    Acting c ctx scope ⟨signal, p, events, state⟩ ⟨signal, p', events, state⟩ [a] [a] := by
  refine told hp hs fun b hb e he => ?_
  rw [List.mem_singleton.1 hb, ha] at he
  cases he

/-- Steps that get the same failure. -/
theorem refused {p p' : Pipe} (hp : p.Alike c p') {e : DatasetError} {events : List Event}
    {state : RunState} {a : Heard} (ha : a.failure? = some e) :
    Acting c ctx scope ⟨.fail (.dataset e), p, events, state⟩
      ⟨.fail (.dataset e), p', events, state⟩ [a] [a] := by
  refine told hp (Signal.noConfusion ·) fun b hb e' he => ?_
  rw [List.mem_singleton.1 hb, ha] at he
  cases he
  rfl

/-- The second step gets the failure, and the first one another answer. -/
theorem parted {e : DatasetError} (he : c.fault = some e) {a a' : Heard} (hne : a ≠ a')
    (ha : a'.failure? = some e) (hs : s'.signal = .fail (.dataset e)) :
    Acting c ctx scope s s' [a] [a'] where
  surfaces b hb e' he' := by
    rw [List.mem_singleton.1 hb, ha] at he'
    cases he'
    exact .inl hs
  parts := .inr ⟨e, he, .one hne ha⟩
  acts := by
    rw [hs]
    nofun

/-- Steps with which a stage closes its input. -/
theorem closing {stage stage' : Pipe → Pipe}
    (hstage : ∀ {q q' : Pipe}, q.Alike c q' → (stage q).Alike c (stage' q'))
    {input input' : Pipe} (hi : input.Alike c input') {signal : Signal} (hs : signal ≠ .await)
    {state : RunState} :
    Acting c ctx scope ⟨signal, stage input.close.1, input.close.2, state⟩
      ⟨signal, stage' input'.close.1, input'.close.2, state⟩ [] [] := by
  obtain ⟨hclosed, hevents⟩ := hi.close
  exact ⟨⟨fun _ ha => absurd ha List.not_mem_nil,
    .inl ⟨rfl, rfl, hstage hclosed, hevents, rfl, fun h => absurd h hs⟩⟩, hs⟩

theorem finish {ended : Pipe → Pipe}
    (hended : ∀ {q q' : Pipe}, q.Alike c q' → (ended q).Alike c (ended q'))
    {input input' : Pipe} (hi : input.Alike c input') {state : RunState} :
    Acting c ctx scope (Step.finish ended input state) (Step.finish ended input' state) [] [] :=
  closing hended hi (by nofun)

/-- Two steps after the same events. -/
theorem after {events events' : List Event} (h : Acting c ctx scope s s' heard heard')
    (hevents : c.view events = c.view events') :
    Acting c ctx scope (s.after events) (s'.after events') heard heard' where
  surfaces := h.surfaces
  parts := by
    refine h.parts.imp_left fun ⟨hsame, ha⟩ => ⟨hsame, ha.signal, ha.pipe, ?_, ha.state, ?_⟩
    · exact c.view_append_congr hevents ha.events
    · exact fun hawait => absurd hawait h.acts
  acts := h.acts

/-- Two steps after the same answers. -/
theorem prepend (h : Acting c ctx scope s s' heard heard') {same : List Heard}
    (hnone : ∀ a ∈ same, a.failure? = none) :
    Acting c ctx scope s s' (same ++ heard) (same ++ heard') where
  surfaces a ha e he := by
    rcases List.mem_append.1 ha with ha | ha
    · rw [hnone a ha] at he
      cases he
    · exact h.surfaces a ha e he
  parts := by
    refine h.parts.imp (fun ⟨hsame, ha⟩ => ⟨by rw [hsame], ha⟩) ?_
    rintro ⟨e, he, hparted⟩
    exact ⟨e, he, hparted.prepend same⟩
  acts := h.acts

end Acting

namespace Lockstep

/-- A second step that comes to a row, to the end or to a wait has heard no failure. -/
theorem unharmed (h : Lockstep c ctx scope s s' heard heard')
    (hs : ∀ e, ¬ s'.Fails ctx e) :
    (∀ a ∈ heard', a.failure? = none) ∧ heard = heard' ∧ Step.Alike c ctx scope s s' := by
  have hnone : ∀ a ∈ heard', a.failure? = none := by
    intro a ha
    cases he : a.failure? with
    | none => rfl
    | some e => exact absurd (h.surfaces a ha e he) (hs (.dataset e))
  refine ⟨hnone, h.parts.resolve_right ?_⟩
  rintro ⟨e, -, hparted⟩
  obtain ⟨a, ha, he⟩ := hparted.hears
  rw [hnone a ha] at he
  cases he

/-- **Stages in lockstep.** A stage over steps in lockstep takes steps in lockstep if it does so
with a row and at the end. -/
theorem feedOr (h : Lockstep c ctx scope s s' heard heard') {hold drop hold' drop' : Pipe → Pipe}
    {onRow onRow' : Binding → Pipe → RunState → Step} {onEnd onEnd' : Pipe → RunState → Step}
    (hstage : Lingers ctx hold' drop' onRow' onEnd')
    (hhold : ∀ {q q' : Pipe}, q.Alike c q' → (hold q).Alike c (hold' q'))
    (hdrop : ∀ {q q' : Pipe}, q.Alike c q' → (drop q).Alike c (drop' q'))
    {ask ask' : Binding → RunState → List Heard}
    (hrow : ∀ b state {q q' : Pipe}, q.Alike c q' → Acting c ctx scope (onRow b q state)
      (onRow' b q' state) (ask b state) (ask' b state))
    (hend : ∀ state {q q' : Pipe}, q.Alike c q' → Acting c ctx scope (onEnd q state)
      (onEnd' q' state) [] []) :
    Lockstep c ctx scope (s.feedOr hold drop onRow onEnd) (s'.feedOr hold' drop' onRow' onEnd')
      (heard ++ s.asks ask) (heard' ++ s'.asks ask') := by
  have hparts := h.parts
  rcases hparts with ⟨rfl, hsignal, hpipe, hevents, hstate, hwaits⟩ | ⟨e, he, hparted⟩
  · obtain ⟨signal, p, events, state⟩ := s
    obtain ⟨signal', p', events', state'⟩ := s'
    dsimp only at hsignal hpipe hevents hstate hwaits
    subst hsignal hstate
    cases signal' with
    | yield b =>
      obtain ⟨hnone, -⟩ := h.unharmed fun e he => he.elim nofun nofun
      exact (((hrow b state' hpipe).after hevents).prepend hnone).toLockstep
    | done =>
      obtain ⟨hnone, -⟩ := h.unharmed fun e he => he.elim nofun nofun
      exact (((hend state' hpipe).after hevents).prepend hnone).toLockstep
    | fail e =>
      rw [Step.asks, Step.asks, List.append_nil]
      exact ⟨fun a ha e he => (h.surfaces a ha e he).feedOr hstage,
        .inl ⟨rfl, rfl, hdrop hpipe, hevents, rfl, nofun⟩⟩
    | skip =>
      rw [Step.asks, Step.asks, List.append_nil]
      exact ⟨fun a ha e he => (h.surfaces a ha e he).feedOr hstage,
        .inl ⟨rfl, rfl, hhold hpipe, hevents, rfl, nofun⟩⟩
    | await =>
      rw [Step.asks, Step.asks, List.append_nil]
      obtain ⟨hsilent, hblocked⟩ := hwaits rfl
      exact ⟨fun a ha e he => (h.surfaces a ha e he).feedOr hstage,
        .inl ⟨rfl, rfl, hhold hpipe, hevents, rfl, fun _ =>
          ⟨hsilent, fun shared hs => (hblocked shared hs).held hstage⟩⟩⟩
  · obtain ⟨a, ha, hfault⟩ := hparted.hears
    have hnone : s'.asks ask' = [] := (h.surfaces a ha e hfault).asks_nil
    rw [hnone, List.append_nil]
    refine ⟨fun a ha e he => (h.surfaces a ha e he).feedOr hstage, .inr ⟨e, he, ?_⟩⟩
    have hmore := hparted.append (s.asks ask) []
    rwa [List.append_nil] at hmore

/-- A stage that asks the dataset nothing. -/
theorem feed (h : Lockstep c ctx scope s s' heard heard') {hold drop hold' drop' : Pipe → Pipe}
    {onRow onRow' : Binding → Pipe → RunState → Step} {onEnd onEnd' : Pipe → RunState → Step}
    (hstage : Lingers ctx hold' drop' onRow' onEnd')
    (hhold : ∀ {q q' : Pipe}, q.Alike c q' → (hold q).Alike c (hold' q'))
    (hdrop : ∀ {q q' : Pipe}, q.Alike c q' → (drop q).Alike c (drop' q'))
    (hrow : ∀ b state {q q' : Pipe}, q.Alike c q' → Acting c ctx scope (onRow b q state)
      (onRow' b q' state) [] [])
    (hend : ∀ state {q q' : Pipe}, q.Alike c q' → Acting c ctx scope (onEnd q state)
      (onEnd' q' state) [] []) :
    Lockstep c ctx scope (s.feedOr hold drop onRow onEnd) (s'.feedOr hold' drop' onRow' onEnd')
      heard heard' := by
  have hfed : Lockstep c ctx scope (s.feedOr hold drop onRow onEnd)
      (s'.feedOr hold' drop' onRow' onEnd') (heard ++ s.asks fun _ _ => [])
      (heard' ++ s'.asks fun _ _ => []) := h.feedOr hstage hhold hdrop hrow hend
  rwa [Step.asks_none, Step.asks_none, List.append_nil, List.append_nil] at hfed

end Lockstep

end Acting

end Steps

/-! ## Readers and trackers -/

section Readers

variable {c : Comparison} {ctx : Context} {scope : Option SharedRows} {s s' : Step}
  {heard heard' : List Heard}

/-- A reader hears nothing. If it is ahead of its scope, it waits. -/
theorem replayStep_lockstep {phase : Phase} (h : phase.isDone = false) (position : Nat)
    (state : RunState) :
    Lockstep c ctx scope (replayStep scope phase position state)
      (replayStep scope phase position state) [] [] := by
  have hactive : phase.activate = .active := by cases phase <;> first | rfl | cases h
  have hp (position : Nat) := Pipe.Alike.refl c (.replay phase.activate position)
  unfold replayStep
  split
  · refine ⟨fun _ ha => absurd ha List.not_mem_nil, .inl ⟨rfl, rfl, hp _, rfl, rfl, fun _ => ?_⟩⟩
    exact ⟨rfl, nofun⟩
  · next shared =>
    split
    · exact (Acting.same (hp _) (by nofun)).toLockstep
    · next hclean =>
      split
      · exact (Acting.same (hp _) (by nofun)).toLockstep
      · next hrow =>
        split
        · exact (Acting.same (.refl c _) (by nofun)).toLockstep
        · next hopen =>
          refine ⟨fun _ ha => absurd ha List.not_mem_nil,
            .inl ⟨rfl, rfl, hp _, rfl, rfl, fun _ => ⟨rfl, fun shared' hs => ?_⟩⟩⟩
          cases hs
          show Blocked ctx shared.clear (.replay phase.activate position)
          rw [hactive]
          exact .replay rfl hrow (eq_false_of_ne_true hopen)

/-- A tracker around the second of two steps, and maybe around the first. -/
theorem Lockstep.tracked (h : Lockstep c ctx scope s s' heard heard') (id : String)
    {p : Pipe} {events events' : List Event}
    (hp : s'.signal = s.signal → s.pipe.Alike c s'.pipe →
      p.Alike c (.tracked id s'.signal.isPending s'.pipe))
    (hv : c.view s.events = c.view s'.events → c.view events = c.view events')
    (hr : events'.any Event.isRelease = s'.events.any Event.isRelease) :
    Lockstep c ctx scope { s with pipe := p, events := events }
      { s' with pipe := .tracked id s'.signal.isPending s'.pipe, events := events' } heard
      heard' where
  surfaces a ha e he :=
    (h.surfaces a ha e he).imp_right fun ⟨hskip, hq⟩ => ⟨hskip, hq.tracked id _⟩
  parts := by
    refine h.parts.imp_left fun ⟨hsame, ha⟩ =>
      ⟨hsame, ha.signal, hp ha.signal ha.pipe, hv ha.events, ha.state, fun hs => ?_⟩
    obtain ⟨hsilent, hblocked⟩ := ha.waits hs
    refine ⟨hr.trans hsilent, fun shared hscope => ?_⟩
    dsimp only at hs ⊢
    rw [hs]
    exact (hblocked shared hscope).tracked id

end Readers

/-! ## Stages with one input -/

section Stages

variable {c : Comparison} {ctx : Context} {d : Dataset} {scope : Option SharedRows}
  {input input' left left' right right' : Pipe} {s s' : Step} {heard heard' : List Heard}

section Asking

variable (hd : ctx.dataset.Alike c d)

include hd

theorem scanRow_lockstep (pattern : TriplePattern) (slot : GraphSlot) (row : Binding)
    (state : RunState) (h : input.Alike c input') :
    Acting c (ctx.given d) scope (scanRow ctx pattern slot row input state)
      (scanRow (ctx.given d) pattern slot row input' state) (ctx.hearScan pattern slot row state)
      ((ctx.given d).hearScan pattern slot row state) := by
  have hreply := hd.scan state.scans (.ofPattern pattern slot row)
  unfold scanRow Context.openScan Context.hearScan
  simp only [Context.given_dataset]
  generalize ctx.dataset.scan state.scans (.ofPattern pattern slot row) = reply at hreply ⊢
  generalize d.scan state.scans (.ofPattern pattern slot row) = reply' at hreply ⊢
  cases hreply with
  | ok cancels hitems =>
    have hp := Pipe.Alike.scan .active pattern slot (.reading row hitems) h
    exact .answered hp (by nofun) rfl
  | error cancels e => exact .refused (.scan .active pattern slot .idle h) rfl
  | fault he cancels hne =>
    refine .parted he (fun heq => Reply.heard_ne hne ?_) rfl rfl
    injection heq with hcancels hfailure
    exact congrArg₂ Prod.mk hcancels hfailure

theorem scanStep_lockstep (pattern : TriplePattern) (slot : GraphSlot)
    (h : Lockstep c (ctx.given d) scope s s' heard heard') :
    Lockstep c (ctx.given d) scope (scanStep ctx pattern slot s)
      (scanStep (ctx.given d) pattern slot s')
      (heard ++ s.asks (ctx.hearScan pattern slot))
      (heard' ++ s'.asks ((ctx.given d).hearScan pattern slot)) :=
  h.feedOr (fun _ _ _ => Pipe.step_scan_asking rfl) (.scan _ pattern slot .asking)
    (.scan _ pattern slot .idle)
    (fun row state _ _ hq => scanRow_lockstep hd pattern slot row state hq)
    fun _ _ _ hq => .finish (.scan _ pattern slot .idle) hq

/-- What a stage makes of the graph names, or of the failure to list them. -/
theorem loadNames_lockstep (known : Option (List Term)) (state : RunState)
    {found found' : List Term → Pipe} (hfound : ∀ names, (found names).Alike c (found' names))
    {refused refused' : Pipe} (hrefused : refused.Alike c refused') :
    Acting c (ctx.given d) scope
      (match ctx.loadNames known state with
        | (.ok names, events, state) => ⟨.skip, found names, events, state⟩
        | (.error e, events, state) => ⟨.fail e, refused, events, state⟩)
      (match (ctx.given d).loadNames known state with
        | (.ok names, events, state) => ⟨.skip, found' names, events, state⟩
        | (.error e, events, state) => ⟨.fail e, refused', events, state⟩)
      (ctx.hearNames known state) ((ctx.given d).hearNames known state) := by
  cases known with
  | some names => exact .same (hfound names) (by nofun)
  | none =>
    have hreply := hd.graphNames state.listings
    unfold Context.loadNames Context.hearNames
    simp only [Context.given_dataset]
    generalize ctx.dataset.graphNames state.listings = reply at hreply ⊢
    generalize d.graphNames state.listings = reply' at hreply ⊢
    cases hreply with
    | ok cancels hnames =>
      subst hnames
      exact .answered (hfound _) (by nofun) rfl
    | error cancels e => exact .refused hrefused rfl
    | fault he cancels hne =>
      refine .parted he (fun heq => Reply.heard_ne hne ?_) rfl rfl
      injection heq with hcancels hfailure
      exact congrArg₂ Prod.mk hcancels hfailure

theorem graphsStep_lockstep (var : Variable) (sub : Op) (known : Option (List Term))
    (h : Lockstep c (ctx.given d) scope s s' heard heard') :
    Lockstep c (ctx.given d) scope (graphsStep ctx var sub known s)
      (graphsStep (ctx.given d) var sub known s')
      (heard ++ s.asks fun _ => ctx.hearNames known)
      (heard' ++ s'.asks fun _ => (ctx.given d).hearNames known) :=
  h.feedOr (fun _ _ _ => Pipe.step_graphs_asking rfl) (.graphs _ var sub known .asking)
    (.graphs _ var sub known .idle)
    (fun row state _ _ hq => loadNames_lockstep hd known state
      (fun names => .graphs _ var sub (some names) (.trying row (candidateGraphs var names row)) hq)
      (.graphs _ var sub known .idle hq))
    fun _ _ _ hq => .finish (.graphs _ var sub known .idle) hq

theorem namesStep_lockstep (name : TermPattern) (known : Option (List Term))
    (h : Lockstep c (ctx.given d) scope s s' heard heard') :
    Lockstep c (ctx.given d) scope (namesStep ctx name known s)
      (namesStep (ctx.given d) name known s')
      (heard ++ s.asks fun _ => ctx.hearNames known)
      (heard' ++ s'.asks fun _ => (ctx.given d).hearNames known) :=
  h.feedOr (fun _ _ _ => Pipe.step_names_nil rfl) (.names _ name known [])
    (.names _ name known [])
    (fun row state _ _ hq => loadNames_lockstep hd known state
      (fun names => .names _ name (some names) (nameRows name names row) hq)
      (.names _ name known [] hq))
    fun _ _ _ hq => .finish (.names _ name known []) hq

end Asking

/-- A scan after its next item: the second scan may come to the failure. -/
theorem scanItem_lockstep (pattern : TriplePattern) (slot : GraphSlot) (row : Binding)
    {items items' : List CursorItem} (hitems : ItemsAlike c items items')
    (h : input.Alike c input') (state : RunState) :
    Acting c (ctx.given d) scope (scanItem ctx pattern slot row items input state)
      (scanItem (ctx.given d) pattern slot row items' input' state) [.item items.head?]
      [.item items'.head?] := by
  have hsame (item : CursorItem) {rest rest' : List CursorItem} (hrest : ItemsAlike c rest rest') :
      Acting c (ctx.given d) scope (scanItem ctx pattern slot row (item :: rest) input state)
        (scanItem (ctx.given d) pattern slot row (item :: rest') input' state) [.item (some item)]
        [.item (some item)] := by
    have hp := Pipe.Alike.scan .active pattern slot (.reading row hrest) h
    cases item with
    | quad q =>
      refine .answered hp ?_ rfl
      cases bindQuad pattern slot row q <;> nofun
    | fault e => exact .refused hp rfl
    | cancel => exact .answered hp (by nofun) rfl
  cases hitems with
  | same items =>
    cases items with
    | nil =>
      exact .answered (.scan .active pattern slot .idle h) (by nofun) rfl
    | cons item rest => exact hsame item (.same rest)
  | cons item hrest => exact hsame item hrest
  | fault he hhead rest =>
    refine .parted he (fun heq => hhead ?_) rfl rfl
    injection heq

theorem filterStep_lockstep (e : Expr) (h : Lockstep c (ctx.given d) scope s s' heard heard') :
    Lockstep c (ctx.given d) scope (filterStep ctx e s) (filterStep (ctx.given d) e s') heard
      heard' := by
  unfold filterStep Step.feed
  refine h.feed (fun _ _ _ => Pipe.step_filter rfl) (.filter _ e) (.filter _ e)
    (fun row state q q' hq => ?_) fun state q q' hq => .finish (.filter _ e) hq
  unfold filterRow
  rw [Context.given_config]
  split <;> exact .same (.filter _ e hq) (by nofun)

theorem projectStep_lockstep (vars : List Variable)
    (h : Lockstep c (ctx.given d) scope s s' heard heard') :
    Lockstep c (ctx.given d) scope (projectStep vars s) (projectStep vars s') heard heard' := by
  unfold projectStep Step.feed
  refine h.feed (fun _ _ _ => Pipe.step_project rfl) (.project _ vars) (.project _ vars)
    (fun row state q q' hq => ?_) fun state q q' hq => .finish (.project _ vars) hq
  exact .same (.project _ vars hq) (by nofun)

theorem tableStep_lockstep {rows : List Binding} (hrows : rows ≠ [])
    (h : Lockstep c (ctx.given d) scope s s' heard heard') :
    Lockstep c (ctx.given d) scope (tableStep rows s) (tableStep rows s') heard heard' := by
  unfold tableStep Step.feed
  refine h.feed (fun _ _ _ => Pipe.step_table_idle rfl hrows) (.table _ rows .idle)
    (.table _ rows .idle) (fun row state q q' hq => ?_) fun state q q' hq =>
      .finish (.table _ rows .idle) hq
  exact .same (.table _ rows (.trying row rows) hq) (by nofun)

theorem tableTry_lockstep (rows : List Binding) (row : Binding) (untried : List Binding)
    (h : input.Alike c input') (state : RunState) :
    Acting c (ctx.given d) scope (tableTry rows row untried input state)
      (tableTry rows row untried input' state) [] [] := by
  unfold tableTry
  split
  · exact .same (.table _ rows .idle h) (by nofun)
  · next other untried =>
    refine .same (.table _ rows (.trying row untried) h) ?_
    cases (row.merge other).toOption <;> nofun

theorem sliceStep_lockstep (skip : Nat) {remaining : Option Nat} (hr : remaining ≠ some 0)
    (h : Lockstep c (ctx.given d) scope s s' heard heard') :
    Lockstep c (ctx.given d) scope (sliceStep skip remaining s) (sliceStep skip remaining s') heard
      heard' := by
  unfold sliceStep Step.feed
  refine h.feed (fun _ _ _ => Pipe.step_slice rfl hr) (.slice _ skip remaining)
    (.slice _ skip remaining) (fun row state q q' hq => ?_) fun state q q' hq =>
      .finish (.slice _ skip remaining) hq
  unfold sliceRow
  split
  · exact .same (.slice _ _ _ hq) (by nofun)
  · split
    · exact .closing (.slice _ _ _) hq (by nofun)
    · exact .same (.slice _ _ _ hq) (by nofun)
  · exact .same (.slice _ _ _ hq) (by nofun)

theorem distinctStep_lockstep (seen : List Binding) (limit : Nat)
    (h : Lockstep c (ctx.given d) scope s s' heard heard') :
    Lockstep c (ctx.given d) scope (distinctStep seen limit s) (distinctStep seen limit s') heard
      heard' := by
  unfold distinctStep Step.feed
  refine h.feed (fun _ _ _ => Pipe.step_distinct rfl) (.distinct _ seen limit)
    (.distinct _ seen limit) (fun row state q q' hq => ?_) fun state q q' hq =>
      .finish (.distinct _ [] limit) hq
  unfold distinctRow
  split
  · exact .same (.distinct _ seen limit hq) (by nofun)
  · refine .same (.distinct _ _ limit hq) ?_
    split <;> nofun

theorem orderStep_lockstep (keys : List SortKey) (keyed : Array (List (Option Term) × Binding))
    (h : Lockstep c (ctx.given d) scope s s' heard heard') :
    Lockstep c (ctx.given d) scope (orderStep ctx keys keyed s)
      (orderStep (ctx.given d) keys keyed s')
      heard heard' := by
  unfold orderStep
  refine h.feed (fun _ _ _ => Pipe.step_order_gathering rfl) (.order _ keys (.gathering keyed))
    (.order _ keys (.gathering #[])) (fun row state q q' hq => ?_) fun state q q' hq =>
      .closing (.order _ keys _) hq (by nofun)
  unfold orderRow
  rw [Context.given_maxRows]
  split
  · exact .same (.order _ keys _ hq) (by nofun)
  · dsimp only
    split <;> exact .same (.order _ keys _ hq) (by nofun)

/-! ## Stages with several inputs -/

theorem joinFinish_lockstep (kind : JoinKind) (condition : Option Expr)
    (hl : left.Alike c left') (hr : right.Alike c right') (state : RunState) :
    Acting c (ctx.given d) scope (joinFinish kind condition left right state)
      (joinFinish kind condition left' right' state) [] [] := by
  obtain ⟨hlc, hle⟩ := hl.close
  obtain ⟨hrc, hre⟩ := hr.close
  exact ⟨⟨fun _ ha => absurd ha List.not_mem_nil, .inl ⟨rfl, rfl, .join _ kind condition _ hlc hrc,
    c.view_append_congr hle hre, rfl, nofun⟩⟩, nofun⟩

theorem joinGathered_lockstep (kind : JoinKind) (condition : Option Expr) (rows : Array Binding)
    (hl : left.Alike c left') (hr : right.Alike c right') (state : RunState) :
    Acting c (ctx.given d) scope (joinGathered kind condition rows left right state)
      (joinGathered kind condition rows left' right' state) [] [] := by
  obtain ⟨hrc, hre⟩ := hr.close
  unfold joinGathered
  refine .after ?_ hre
  split
  · exact joinFinish_lockstep kind condition hl hrc state
  · exact .same (.join _ kind condition _ hl hrc) (by nofun)

theorem joinRightStep_lockstep (kind : JoinKind) (condition : Option Expr) (rows : Array Binding)
    (hl : left.Alike c left') (h : Lockstep c (ctx.given d) scope s s' heard heard') :
    Lockstep c (ctx.given d) scope (joinRightStep ctx kind condition rows left s)
      (joinRightStep (ctx.given d) kind condition rows left' s') heard heard' := by
  unfold joinRightStep Step.feed
  refine h.feed (fun _ _ _ => Pipe.step_join_gathering rfl) (.join _ kind condition _ hl)
    (.join _ kind condition _ hl) (fun row state q q' hq => ?_) fun state q q' hq =>
      joinGathered_lockstep kind condition rows hl hq state
  unfold joinGather
  rw [Context.given_maxRows]
  refine .same (.join _ kind condition _ hl hq) ?_
  split <;> nofun

theorem joinLeftStep_lockstep (kind : JoinKind) (condition : Option Expr) (rows : List Binding)
    (hr : right.Alike c right') (h : Lockstep c (ctx.given d) scope s s' heard heard') :
    Lockstep c (ctx.given d) scope (joinLeftStep kind condition rows right s)
      (joinLeftStep kind condition rows right' s') heard heard' := by
  unfold joinLeftStep Step.feed
  refine h.feed (fun _ _ _ => Pipe.step_join_idle rfl) (.join _ kind condition _ · hr)
    (.join _ kind condition _ · hr) (fun row state q q' hq => ?_) fun state q q' hq =>
      joinFinish_lockstep kind condition hq hr state
  exact .same (.join _ kind condition _ hq hr) (by nofun)

theorem joinTry_lockstep (kind : JoinKind) (condition : Option Expr) (rows : List Binding)
    (row : Binding) (untried : List Binding) (matched : Bool) (hl : left.Alike c left')
    (hr : right.Alike c right') (state : RunState) :
    Acting c (ctx.given d) scope (joinTry kind condition rows row untried matched left right state)
      (joinTry kind condition rows row untried matched left' right' state) [] [] := by
  have hp (at' : JoinState) := Pipe.Alike.join .active kind condition at' hl hr
  unfold joinTry
  split
  · refine .same (hp _) ?_
    split <;> nofun
  · dsimp only
    split
    · exact .same (hp _) (by nofun)
    · split <;> exact .same (hp _) (by nofun)

theorem optionalStep_lockstep (sub : Op) (condition : Option Expr) (g : ActiveGraph)
    (h : Lockstep c (ctx.given d) scope s s' heard heard') :
    Lockstep c (ctx.given d) scope (optionalStep ctx sub condition g s)
      (optionalStep (ctx.given d) sub condition g s') heard heard' := by
  unfold optionalStep Step.feed
  refine h.feed (fun _ _ _ => Pipe.step_optional rfl) (.optional _ sub condition g)
    (.optional _ sub condition g) (fun row state q q' hq => ?_) fun state q q' hq =>
      .finish (.optional _ sub condition g) hq
  unfold optionalRow
  rw [Context.given_inGraph, compile_given]
  dsimp only
  split
  · exact .same (.probing sub condition g row false (.refl c _) hq) (by nofun)
  · exact .same (.optional _ sub condition g hq) (by nofun)

theorem probeStep_lockstep (sub : Op) (condition : Option Expr) (g : ActiveGraph) (row : Binding)
    (matched : Bool) (hi : input.Alike c input')
    (h : Lockstep c (ctx.given d) scope s s' heard heard') :
    Lockstep c (ctx.given d) scope (probeStep sub condition g row matched input s)
      (probeStep sub condition g row matched input' s') heard heard' := by
  unfold probeStep Step.feed
  refine h.feed (fun _ _ _ => Pipe.step_probing) (.probing sub condition g row matched · hi)
    (.probing sub condition g row matched · hi) (fun b state q q' hq => ?_)
      fun state q q' hq => ?_
  · unfold probeRow
    split <;> exact .same (.probing sub condition g row _ hq hi) (by nofun)
  · obtain ⟨-, hevents⟩ := hq.close
    have hs : (if matched then .skip else .yield row : Signal) ≠ .await := by split <;> nofun
    exact ⟨⟨fun _ ha => absurd ha List.not_mem_nil, .inl ⟨rfl, rfl,
      .optional _ sub condition g hi, hevents, rfl, fun h => absurd h hs⟩⟩, hs⟩

theorem graphsTry_lockstep (var : Variable) (sub : Op) (known : Option (List Term)) (row : Binding)
    (candidates : List Term) (h : input.Alike c input') (state : RunState) :
    Acting c (ctx.given d) scope (graphsTry ctx var sub known row candidates input state)
      (graphsTry (ctx.given d) var sub known row candidates input' state) [] [] := by
  have hp (at' : GraphsState) := Pipe.Alike.graphs .active var sub known at' h
  unfold graphsTry
  split
  · exact .same (hp _) (by nofun)
  · next name candidates =>
    rw [Context.given_inGraph]
    dsimp only
    split
    · exact .same (hp _) (by nofun)
    · next seed hseed =>
      rw [compile_given]
      split
      · exact .same (.within var sub known row candidates (.refl c _) h) (by nofun)
      · exact .same (hp _) (by nofun)

theorem withinStep_lockstep (var : Variable) (sub : Op) (known : Option (List Term))
    (row : Binding) (candidates : List Term) (hi : input.Alike c input')
    (h : Lockstep c (ctx.given d) scope s s' heard heard') :
    Lockstep c (ctx.given d) scope (withinStep var sub known row candidates input s)
      (withinStep var sub known row candidates input' s') heard heard' := by
  unfold withinStep Step.feed
  refine h.feed (fun _ _ _ => Pipe.step_within) (.within var sub known row candidates · hi)
    (.within var sub known row candidates · hi) (fun b state q q' hq => ?_)
      fun state q q' hq => ?_
  · exact .same (.within var sub known row candidates hq hi) (by nofun)
  · obtain ⟨-, hevents⟩ := hq.close
    exact ⟨⟨fun _ ha => absurd ha List.not_mem_nil, .inl ⟨rfl, rfl,
      .graphs _ var sub known _ hi, hevents, rfl, nofun⟩⟩, nofun⟩

theorem concatFirstStep_lockstep (hr : right.Alike c right')
    (h : Lockstep c (ctx.given d) scope s s' heard heard') :
    Lockstep c (ctx.given d) scope (concatFirstStep right s) (concatFirstStep right' s') heard
      heard' := by
  unfold concatFirstStep Step.feed
  refine h.feed (fun _ _ _ => Pipe.step_concat_first rfl) (.concat _ false · hr)
    (.concat _ false · hr) (fun b state q q' hq => ?_) fun state q q' hq =>
      .closing (.concat _ true · hr) hq (by nofun)
  exact .same (.concat _ false hq hr) (by nofun)

theorem concatRestStep_lockstep (hl : left.Alike c left')
    (h : Lockstep c (ctx.given d) scope s s' heard heard') :
    Lockstep c (ctx.given d) scope (concatRestStep left s) (concatRestStep left' s') heard
      heard' := by
  unfold concatRestStep Step.feed
  refine h.feed (fun _ _ _ => Pipe.step_concat_rest rfl) (.concat _ true hl)
    (.concat _ true hl) (fun b state q q' hq => ?_) fun state q q' hq => ?_
  · exact .same (.concat _ true hl hq) (by nofun)
  · exact .same (.concat _ true hl hq) (by nofun)

end Stages

/-! ## Scopes -/

section Scopes

variable {c : Comparison} {ctx : Context} {scope outer : Option SharedRows} {shared : SharedRows}
  {input input' body body' : Pipe} {s s' : Step}

theorem shareSettle_alike (hi : input.Alike c input') (h : Step.Alike c ctx scope s s') :
    Step.Alike c ctx outer (shareSettle shared input s) (shareSettle shared input' s') := by
  obtain ⟨hshared, hclosed, hmore⟩ := settle_alike shared.clear hi (fun _ => input.close)
    (fun _ => input'.close) hi.close.1 hi.close.2 h.events
  unfold shareSettle
  refine ⟨?_, ?_, hmore, h.state, ?_⟩
  · simp only [h.signal]
  · dsimp only
    rw [hshared]
    exact .share _ hclosed h.pipe
  · dsimp only
    split
    · nofun
    · next hs => exact fun hawait => absurd hawait hs

/-- Two scopes that read on for bodies that wait. -/
theorem shareRead_alike (hbody : body.Alike c body') (hblocked : Blocked ctx shared body')
    (hclean : shared.fault = none) {events events' : List Event}
    (hevents : c.view events = c.view events') (hsilent : events'.any Event.isRelease = false)
    (h : Step.Alike c ctx scope s s') :
    Step.Alike c ctx scope (shareRead shared body events s)
      (shareRead shared body' events' s') := by
  unfold shareRead
  refine ⟨?_, ?_, c.view_append_congr hevents h.events, h.state, ?_⟩
  · simp only [h.signal]
  · dsimp only
    rw [h.signal]
    exact .share _ h.pipe hbody
  · intro hs
    have hawait : s'.signal = .await := by
      refine Classical.byContradiction fun hne => ?_
      simp only [if_neg hne] at hs
      cases hs
    obtain ⟨hquiet, hinput⟩ := h.waits hawait
    refine ⟨?_, fun outer houter => ?_⟩
    · dsimp only
      rw [List.any_append, hsilent, hquiet]
      rfl
    · dsimp only
      rw [hawait]
      exact hblocked.share hclean (hinput outer houter)

/-- **Scopes in lockstep.** -/
theorem share_lockstep {d : Dataset} {state : RunState} (hinput : input.Alike c input')
    (hi : ∀ state, Lockstep c (ctx.given d) scope (input.step ctx scope state)
      (input'.step (ctx.given d) scope state) (input.heard ctx scope state)
      (input'.heard (ctx.given d) scope state))
    (hb : Lockstep c (ctx.given d) (some shared) (body.step ctx (some shared) state)
      (body'.step (ctx.given d) (some shared) state) (body.heard ctx (some shared) state)
      (body'.heard (ctx.given d) (some shared) state)) :
    Lockstep c (ctx.given d) scope ((Pipe.share shared input body).step ctx scope state)
      ((Pipe.share shared input' body').step (ctx.given d) scope state)
      ((Pipe.share shared input body).heard ctx scope state)
      ((Pipe.share shared input' body').heard (ctx.given d) scope state) := by
  have hsurfaces (a : Heard) (ha : a ∈ body'.heard (ctx.given d) (some shared) state)
      (e : DatasetError) (he : a.failure? = some e) :
      ((Pipe.share shared input' body').step (ctx.given d) scope state).Fails (ctx.given d)
        (.dataset e) :=
    share_fails (hb.surfaces a ha e he)
  rw [Pipe.heard_share, Pipe.heard_share]
  rcases hb.parts with ⟨hsame, ha⟩ | ⟨e, he, hparted⟩
  · rw [hsame, c.any_isRelease ha.events, ← ha.signal, ← ha.state]
    by_cases hrelease :
        (body'.step (ctx.given d) (some shared) state).events.any Event.isRelease = true
    · rw [if_pos hrelease, if_pos hrelease, List.append_nil]
      refine ⟨hsurfaces, .inl ⟨rfl, ?_⟩⟩
      rw [Pipe.step_share, Pipe.step_share, if_pos hrelease,
        if_pos ((c.any_isRelease ha.events).trans hrelease)]
      exact shareSettle_alike hinput ha
    · have hsilent := eq_false_of_ne_true hrelease
      rw [if_neg hrelease, if_neg hrelease]
      by_cases hawait : (body'.step (ctx.given d) (some shared) state).signal = .await
      · -- the body waits, so it has heard no failure, and the scopes read on
        obtain ⟨-, hblocked⟩ := ha.waits hawait
        obtain ⟨hnone, -⟩ := hb.unharmed fun e he => he.running hawait
        have hread := hi (body'.step (ctx.given d) (some shared) state).state
        rw [if_pos hawait, if_pos hawait]
        rw [share_reads (ha.signal.symm.trans hawait)
            ((c.any_isRelease ha.events).trans hsilent), share_reads hawait hsilent, ← ha.state]
        refine ⟨fun a hmem e he => ?_, ?_⟩
        · rcases List.mem_append.1 hmem with hmem | hmem
          · rw [hnone a hmem] at he
            cases he
          · exact shareRead_fails (hblocked shared rfl) rfl (hread.surfaces a hmem e he) _
        · rcases hread.parts with ⟨hheard, halike⟩ | ⟨e, he, hparted⟩
          · exact .inl ⟨by rw [hheard],
              shareRead_alike ha.pipe (hblocked shared rfl) rfl ha.events hsilent halike⟩
          · exact .inr ⟨e, he, hparted.prepend _⟩
      · rw [if_neg hawait, if_neg hawait, List.append_nil]
        refine ⟨hsurfaces, .inl ⟨rfl, ?_⟩⟩
        rw [Pipe.step_share, Pipe.step_share, if_neg hrelease, if_neg hawait,
          if_neg (ne_true_of_eq_false ((c.any_isRelease ha.events).trans hsilent)),
          if_neg (ha.signal ▸ hawait)]
        exact ⟨ha.signal, .share _ hinput ha.pipe, ha.events, ha.state,
          fun h => absurd h hawait⟩
  · obtain ⟨a, hmem, hfault⟩ := hparted.hears
    have hrunning := (hb.surfaces a hmem e hfault).running
    refine ⟨fun a hmem => ?_, .inr ⟨e, he, hparted.append _ _⟩⟩
    rw [if_neg hrunning, ite_self, List.append_nil] at hmem
    exact hsurfaces a hmem

end Scopes

/-! ## All stages -/

section Pipes

variable {c : Comparison} {ctx : Context} {d : Dataset}

theorem Pipe.Alike.isSpent {p p' : Pipe} (h : p.Alike c p') (hspent : p'.isSpent = true) :
    p.isSpent = true := by
  cases h with
  | tracked | watched | share => cases hspent
  | _ => exact hspent

/-- What is at hand for the second pipeline is so for the first one. -/
theorem Pipe.AtHand.alike {state : RunState} {p p' q' : Pipe} {signal : Signal}
    (h' : AtHand state p' signal q') (h : p.Alike c p') :
    ∃ q, AtHand state p signal q ∧ q.Alike c q' := by
  cases h' with
  | spent hspent => exact ⟨p, .spent (h.isSpent hspent), h⟩
  | bindings_nil hd =>
    cases h
    exact ⟨_, .bindings_nil hd, .refl c _⟩
  | bindings_cons hd =>
    cases h
    exact ⟨_, .bindings_cons hd, .refl c _⟩
  | script_nil hd =>
    cases h
    exact ⟨_, .script_nil hd, .refl c _⟩
  | script_row hd =>
    cases h
    exact ⟨_, .script_row hd, .refl c _⟩
  | script_fail hd =>
    cases h
    exact ⟨_, .script_fail hd, .refl c _⟩
  | scan_cancelled hd hc =>
    cases h with
    | scan _ _ _ hat h =>
      cases hat
      exact ⟨_, .scan_cancelled hd hc, .scan _ _ _ .idle h⟩
  | graphs_cancelled hd hc =>
    cases h with
    | graphs _ _ _ _ _ h =>
      exact ⟨_, .graphs_cancelled hd hc, .graphs _ _ _ _ .idle h⟩
  | names_cons hd =>
    cases h with
    | names _ _ _ _ h => exact ⟨_, .names_cons hd, .names _ _ _ _ h⟩
  | order_nil hd =>
    cases h with
    | order _ _ _ h => exact ⟨_, .order_nil hd, .order _ _ _ h⟩
  | order_cons hd =>
    cases h with
    | order _ _ _ h => exact ⟨_, .order_cons hd, .order _ _ _ h⟩
  | concatEnd hd =>
    cases h
    exact ⟨_, .concatEnd hd, .refl c _⟩

/-- **Lockstep.** Alike pipelines over alike datasets hear the same and take alike steps, or the
second one hears the failure; and the second one fails with every failure that it hears. -/
theorem Pipe.Alike.lockstep (hd : ctx.dataset.Alike c d) {p p' : Pipe} (h : p.Alike c p')
    (scope : Option SharedRows) (state : RunState) :
    Lockstep c (ctx.given d) scope (p.step ctx scope state) (p'.step (ctx.given d) scope state)
      (p.heard ctx scope state) (p'.heard (ctx.given d) scope state) := by
  -- the second pipeline is the one to go by: it has every stage of the first one
  induction p', state using step_induction generalizing p scope with
  | at_hand h' =>
    obtain ⟨q, hat, hq⟩ := h'.alike h
    rw [hat.heard_eq, h'.heard_eq, hat.step_eq, h'.step_eq]
    exact (Acting.same hq h'.ne_await).toLockstep
  | @tracked id calling _ _ ih =>
    cases h with
    | tracked _ _ h =>
      rw [heard_tracked, heard_tracked, step_tracked, step_tracked]
      refine (ih h scope).tracked id (fun hs ha => hs ▸ .tracked id _ ha) (fun hv => ?_) ?_
      · cases calling with
        | true => exact hv
        | false => exact c.view_cons _ hv
      · cases calling <;> rfl
    | watched hid _ h =>
      rw [heard_tracked, step_tracked]
      refine (ih h scope).tracked _ (fun _ ha => .watched hid _ ha) (fun hv => ?_) ?_
      · cases calling with
        | true => exact hv
        | false => exact hv.trans (c.view_cons_hidden hid.1 _).symm
      · cases calling <;> rfl
  | replay hrun =>
    cases h
    rw [heard_replay, heard_replay, step_replay hrun, step_replay hrun]
    exact replayStep_lockstep hrun _ _
  | @share shared _ _ _ ihi ihb =>
    cases h with
    | share _ hi hb =>
      exact share_lockstep hi (fun state => ihi state hi scope) (ihb hb (some shared))
  | scan_reading hrun =>
    cases h with
    | scan _ _ _ hat h =>
      cases hat with
      | reading _ hitems =>
        rw [heard_scan_reading hrun, heard_scan_reading hrun, step_scan_reading hrun,
          step_scan_reading hrun]
        exact (scanItem_lockstep _ _ _ hitems h _).toLockstep
  | scan hrun ha ih =>
    cases h with
    | scan _ _ _ hat h =>
      rw [heard_scan hrun (hat.asks ha), heard_scan hrun ha, step_scan hrun (hat.asks ha),
        step_scan hrun ha]
      exact scanStep_lockstep hd _ _ (ih h scope)
  | filter hrun ih =>
    cases h with
    | filter _ _ h =>
      rw [heard_filter hrun, heard_filter hrun, step_filter hrun, step_filter hrun]
      exact filterStep_lockstep _ (ih h scope)
  | join_gathering hrun ih =>
    cases h with
    | join _ _ _ _ hl hr =>
      rw [heard_join_gathering hrun, heard_join_gathering hrun, step_join_gathering hrun,
        step_join_gathering hrun]
      exact joinRightStep_lockstep _ _ _ hl (ih hr scope)
  | join_idle hrun ih =>
    cases h with
    | join _ _ _ _ hl hr =>
      rw [heard_join_idle hrun, heard_join_idle hrun, step_join_idle hrun, step_join_idle hrun]
      exact joinLeftStep_lockstep _ _ _ hr (ih hl scope)
  | join_trying hrun =>
    cases h with
    | join _ _ _ _ hl hr =>
      rw [heard_join_trying hrun, heard_join_trying hrun, step_join_trying hrun,
        step_join_trying hrun]
      exact (joinTry_lockstep _ _ _ _ _ _ hl hr _).toLockstep
  | optional hrun ih =>
    cases h with
    | optional _ _ _ _ h =>
      rw [heard_optional hrun, heard_optional hrun, step_optional hrun, step_optional hrun]
      exact optionalStep_lockstep _ _ _ (ih h scope)
  | probing ih =>
    cases h with
    | probing _ _ _ _ _ hq h =>
      rw [heard_probing, heard_probing, step_probing, step_probing]
      exact probeStep_lockstep _ _ _ _ _ h (ih hq scope)
  | graphs_trying hrun =>
    cases h with
    | graphs _ _ _ _ _ h =>
      rw [heard_graphs_trying hrun, heard_graphs_trying hrun, step_graphs_trying hrun,
        step_graphs_trying hrun]
      exact (graphsTry_lockstep _ _ _ _ _ h _).toLockstep
  | graphs hrun ha ih =>
    cases h with
    | graphs _ _ _ _ _ h =>
      rw [heard_graphs hrun ha, heard_graphs hrun ha, step_graphs hrun ha, step_graphs hrun ha]
      exact graphsStep_lockstep hd _ _ _ (ih h scope)
  | within ih =>
    cases h with
    | within _ _ _ _ _ hq h =>
      rw [heard_within, heard_within, step_within, step_within]
      exact withinStep_lockstep _ _ _ _ _ h (ih hq scope)
  | names hrun ih =>
    cases h with
    | names _ _ _ _ h =>
      rw [heard_names_nil hrun, heard_names_nil hrun, step_names_nil hrun, step_names_nil hrun]
      exact namesStep_lockstep hd _ _ (ih h scope)
  | table_nil hrun =>
    cases h with
    | table _ _ _ h =>
      rw [heard_table_nil hrun, heard_table_nil hrun, step_table_nil hrun, step_table_nil hrun]
      exact (Acting.finish (.table _ [] .idle) h).toLockstep
  | table_trying hrun hrows =>
    cases h with
    | table _ _ _ h =>
      rw [heard_table_trying hrun hrows, heard_table_trying hrun hrows,
        step_table_trying hrun hrows, step_table_trying hrun hrows]
      exact (tableTry_lockstep _ _ _ h _).toLockstep
  | table_idle hrun hrows ih =>
    cases h with
    | table _ _ _ h =>
      rw [heard_table_idle hrun hrows, heard_table_idle hrun hrows, step_table_idle hrun hrows,
        step_table_idle hrun hrows]
      exact tableStep_lockstep hrows (ih h scope)
  | order hrun ih =>
    cases h with
    | order _ _ _ h =>
      rw [heard_order_gathering hrun, heard_order_gathering hrun, step_order_gathering hrun,
        step_order_gathering hrun]
      exact orderStep_lockstep _ _ (ih h scope)
  | project hrun ih =>
    cases h with
    | project _ _ h =>
      rw [heard_project hrun, heard_project hrun, step_project hrun, step_project hrun]
      exact projectStep_lockstep _ (ih h scope)
  | distinct hrun ih =>
    cases h with
    | distinct _ _ _ h =>
      rw [heard_distinct hrun, heard_distinct hrun, step_distinct hrun, step_distinct hrun]
      exact distinctStep_lockstep _ _ (ih h scope)
  | slice_zero hrun =>
    cases h with
    | slice _ _ _ h =>
      rw [heard_slice_zero hrun, heard_slice_zero hrun, step_slice_zero hrun, step_slice_zero hrun]
      exact (Acting.finish (.slice _ _ (some 0)) h).toLockstep
  | slice hrun hzero ih =>
    cases h with
    | slice _ _ _ h =>
      rw [heard_slice hrun hzero, heard_slice hrun hzero, step_slice hrun hzero,
        step_slice hrun hzero]
      exact sliceStep_lockstep _ hzero (ih h scope)
  | concat_first hrun ih =>
    cases h with
    | concat _ _ hl hr =>
      rw [heard_concat_first hrun, heard_concat_first hrun, step_concat_first hrun,
        step_concat_first hrun]
      exact concatFirstStep_lockstep hr (ih hl scope)
  | concat_rest hrun ih =>
    cases h with
    | concat _ _ hl hr =>
      rw [heard_concat_rest hrun, heard_concat_rest hrun, step_concat_rest hrun,
        step_concat_rest hrun]
      exact concatRestStep_lockstep hl (ih hr scope)

end Pipes

end TripleQuery
