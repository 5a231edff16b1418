import TripleQuery.Proofs.Flow.Basic
import TripleQuery.Proofs.Pipe.Books

/-!
# Runs

`Runs ctx scope known p f` says that the pipeline `p`, asked again and again, comes to the flow `f`
after finitely many steps, as long as nobody cancels the query. The pipeline may stand in the scope
of a shared input: then `scope` is what that input gives out in all, and `known` counts what the
scope has read of it so far. A reader that is ahead of the scope waits, and the run goes on with
one more piece known.

`Runs.through` carries a run of an input over to a stage on top of it. The stage may change from row
to row; what has to be shown for it are a step with a row and a step at the end.
-/

namespace TripleQuery

/-! ## Steps as they are told apart -/

/-- A step has a signal and a pipeline afterwards, and does not cancel the query. -/
structure Does (s : Step) (signal : Signal) (q : Pipe) : Prop where
  signal : s.signal = signal
  pipe : s.pipe = q
  running : s.state.cancelled = false

theorem does_quiet {signal : Signal} {p : Pipe} {state : RunState} (h : state.cancelled = false) :
    Does (.quiet signal p state) signal p :=
  ⟨rfl, rfl, h⟩

/-- A step that releases no reader besides. -/
structure DoesQuietly (s : Step) (signal : Signal) (q : Pipe) : Prop extends Does s signal q where
  silent : releases s.events = 0

theorem doesQuietly_quiet {signal : Signal} {p : Pipe} {state : RunState}
    (h : state.cancelled = false) : DoesQuietly (.quiet signal p state) signal p :=
  ⟨does_quiet h, rfl⟩

/-! ## Scopes -/

/-- What a scope looks like that has read `known` pieces of its input: the first rows and, as the
piece behind the last row, the end, which an input that fails does not come to. -/
structure Serves (all : Flow) (known : Nat) (shared : SharedRows) : Prop where
  rows : shared.rows.toList = all.rows.take known
  done : shared.inputDone = decide (all.rows.length < known)
  clean : shared.fault = none
  ended : all.rows.length < known → all.fault? = none

/-- The scope that a pipeline is asked in: none, or one with the given input. -/
def InScope (all : Option Flow) (known : Nat) (scope : Option SharedRows) : Prop :=
  match all with
  | none => scope = none
  | some all => ∃ shared, scope = some shared ∧ Serves all known shared

/-! ## Failing for sure -/

/-- The pipeline comes to a failure whatever scope it is asked in, and gives nothing before. -/
inductive Doomed (ctx : Context) (e : ExecError) : Pipe → Prop where
  | fail {p q : Pipe} (h : ∀ scope state, state.cancelled = false →
    DoesQuietly (p.step ctx scope state) (.fail e) q) : Doomed ctx e p
  | skip {p q : Pipe} (h : ∀ scope state, state.cancelled = false →
    DoesQuietly (p.step ctx scope state) .skip q) (hq : Doomed ctx e q) : Doomed ctx e p

/-- The pipeline reports a failure that its scope has noted: at once, or it takes it over. -/
def Reports (ctx : Context) (e : ExecError) (p : Pipe) : Prop :=
  ∃ q, (∀ shared state, shared.fault = some e → state.cancelled = false →
      DoesQuietly (p.step ctx (some shared) state) (.fail e) q) ∨
    (Doomed ctx e q ∧ ∀ shared state, shared.fault = some e → state.cancelled = false →
      DoesQuietly (p.step ctx (some shared) state) .skip q)

/-- The pipeline waits for the scope to read on beyond `known` rows. -/
structure Waits (ctx : Context) (known : Nat) (p : Pipe) : Prop where
  open' : 0 < p.readers
  blocked : ∀ shared state, shared.rows.size = known → shared.inputDone = false →
    shared.fault = none → state.cancelled = false →
    p.step ctx (some shared) state = .quiet .await p state
  reports : ∀ e, Reports ctx e p

/-! ## Runs -/

/-- What a step of the pipeline does in the scope. -/
def Takes (ctx : Context) (all : Option Flow) (known : Nat) (p : Pipe) (signal : Signal)
    (q : Pipe) : Prop :=
  ∀ scope state, InScope all known scope → state.cancelled = false →
    Does (p.step ctx scope state) signal q

/-- The pipeline comes to the flow. -/
inductive Runs (ctx : Context) (all : Option Flow) : Nat → Pipe → Flow → Prop where
  | yield {known : Nat} {p q : Pipe} {b : Binding} {f : Flow}
    (h : Takes ctx all known p (.yield b) q) (hq : Runs ctx all known q f) :
    Runs ctx all known p (.row b f)
  | skip {known : Nat} {p q : Pipe} {f : Flow} (h : Takes ctx all known p .skip q)
    (hq : Runs ctx all known q f) : Runs ctx all known p f
  | done {known : Nat} {p q : Pipe} (h : Takes ctx all known p .done q) :
    Runs ctx all known p .done
  | fail {known : Nat} {p q : Pipe} {e : ExecError} (h : Takes ctx all known p (.fail e) q) :
    Runs ctx all known p (.fail e)
  /-- The scope reads on: a row, or the end. -/
  | wait {known : Nat} {p q : Pipe} {f shared : Flow} (hall : all = some shared)
    (hknown : known ≤ shared.rows.length)
    (hend : known = shared.rows.length → shared.fault? = none)
    (h : Takes ctx all known p .await q) (hw : Waits ctx known q)
    (hq : Runs ctx all (known + 1) q f) : Runs ctx all known p f
  /-- The scope reads on and fails. -/
  | doom {known : Nat} {p q : Pipe} {e : ExecError} {shared : Flow} (hall : all = some shared)
    (hknown : known = shared.rows.length) (hend : shared.fault? = some e)
    (h : Takes ctx all known p .await q) (hw : Waits ctx known q) : Runs ctx all known p (.fail e)

/-- The pipeline comes to the flow, however much its scope has read already. -/
def Gives (ctx : Context) (all : Option Flow) (p : Pipe) (f : Flow) : Prop :=
  ∀ known, Runs ctx all known p f

theorem Doomed.runs {ctx : Context} {e : ExecError} {p : Pipe} (h : Doomed ctx e p)
    (all : Option Flow) (known : Nat) : Runs ctx all known p (.fail e) := by
  induction h with
  | fail h => exact .fail fun scope state _ hs => (h scope state hs).toDoes
  | skip h hq ih => exact .skip (fun scope state _ hs => (h scope state hs).toDoes) ih

/-! ## Stages -/

/-- What a stage makes of the steps of its input. -/
structure Stage where
  /-- The stage while it waits for a row. -/
  hold : Pipe → Pipe
  /-- The stage after a failure of its input. -/
  drop : Pipe → Pipe
  onRow : Binding → Pipe → RunState → Step
  onEnd : Pipe → RunState → Step

/-- The pipelines that take their steps as the stage does. -/
def Stage.Enters (ctx : Context) (stage : Stage) (entry : Pipe → Pipe) : Prop :=
  ∀ p scope state, state.cancelled = false → (entry p).step ctx scope state =
    (p.step ctx scope state).feedOr stage.hold stage.drop stage.onRow stage.onEnd

/-- What comes of an action of a stage. -/
inductive Continues (ctx : Context) (all : Option Flow) (known : Nat) :
    (RunState → Step) → Flow → Prop where
  | yield {act : RunState → Step} {q : Pipe} {b : Binding} {f : Flow}
    (h : ∀ state, state.cancelled = false → Does (act state) (.yield b) q)
    (hq : Runs ctx all known q f) : Continues ctx all known act (.row b f)
  | skip {act : RunState → Step} {q : Pipe} {f : Flow}
    (h : ∀ state, state.cancelled = false → Does (act state) .skip q)
    (hq : Runs ctx all known q f) : Continues ctx all known act f
  | done {act : RunState → Step} {q : Pipe}
    (h : ∀ state, state.cancelled = false → Does (act state) .done q) :
    Continues ctx all known act .done
  | fail {act : RunState → Step} {q : Pipe} {e : ExecError}
    (h : ∀ state, state.cancelled = false → Does (act state) (.fail e) q) :
    Continues ctx all known act (.fail e)

section Stages

variable {ctx : Context} {all : Option Flow} {known : Nat}

theorem Does.after {s : Step} {signal : Signal} {q : Pipe} (h : Does s signal q)
    (events : List Event) : Does (s.after events) signal q :=
  ⟨h.signal, h.pipe, h.running⟩

/-- A pipeline whose step is an action after some events runs as the action continues. -/
theorem Continues.runs {act : RunState → Step} {f : Flow} (h : Continues ctx all known act f)
    {p : Pipe} (hp : ∀ scope state, InScope all known scope → state.cancelled = false →
      ∃ events state', state'.cancelled = false ∧
        p.step ctx scope state = (act state').after events) : Runs ctx all known p f := by
  have htakes {signal : Signal} {q : Pipe}
      (h : ∀ state, state.cancelled = false → Does (act state) signal q) :
      Takes ctx all known p signal q := by
    intro scope state hscope hs
    obtain ⟨events, state', hs', hstep⟩ := hp scope state hscope hs
    rw [hstep]
    exact (h state' hs').after events
  cases h with
  | yield h hq => exact .yield (htakes h) hq
  | skip h hq => exact .skip (htakes h) hq
  | done h => exact .done (htakes h)
  | fail h => exact .fail (htakes h)

/-- While its input gives nothing, a stage waits around it. -/
theorem Does.held {s : Step} {signal : Signal} {q : Pipe} (h : Does s signal q)
    (hsignal : signal = .skip ∨ signal = .await) (stage : Stage) :
    Does (s.feedOr stage.hold stage.drop stage.onRow stage.onEnd) signal (stage.hold q) ∧
      (s.feedOr stage.hold stage.drop stage.onRow stage.onEnd).events = s.events := by
  obtain ⟨given, pipe, events, state⟩ := s
  obtain ⟨hgiven, hpipe, hrunning⟩ := h
  dsimp only at hgiven hpipe
  subst hgiven hpipe
  rcases hsignal with rfl | rfl <;> exact ⟨⟨rfl, rfl, hrunning⟩, rfl⟩

/-- A failure of its input is passed on by a stage. -/
theorem Does.dropped {s : Step} {e : ExecError} {q : Pipe} (h : Does s (.fail e) q)
    (stage : Stage) :
    Does (s.feedOr stage.hold stage.drop stage.onRow stage.onEnd) (.fail e) (stage.drop q) ∧
      (s.feedOr stage.hold stage.drop stage.onRow stage.onEnd).events = s.events := by
  obtain ⟨given, pipe, events, state⟩ := s
  obtain ⟨hgiven, hpipe, hrunning⟩ := h
  dsimp only at hgiven hpipe
  subst hgiven hpipe
  exact ⟨⟨rfl, rfl, hrunning⟩, rfl⟩

theorem DoesQuietly.held {s : Step} {q : Pipe} (h : DoesQuietly s .skip q) (stage : Stage) :
    DoesQuietly (s.feedOr stage.hold stage.drop stage.onRow stage.onEnd) .skip (stage.hold q) := by
  obtain ⟨hdoes, hevents⟩ := h.toDoes.held (.inl rfl) stage
  exact ⟨hdoes, by rw [hevents, h.silent]⟩

theorem DoesQuietly.dropped {s : Step} {e : ExecError} {q : Pipe} (h : DoesQuietly s (.fail e) q)
    (stage : Stage) : DoesQuietly (s.feedOr stage.hold stage.drop stage.onRow stage.onEnd) (.fail e)
      (stage.drop q) := by
  obtain ⟨hdoes, hevents⟩ := h.toDoes.dropped stage
  exact ⟨hdoes, by rw [hevents, h.silent]⟩

variable {stage : Stage} {entry : Pipe → Pipe}

/-- A stage over a pipeline that fails for sure does so too. -/
theorem Doomed.enters {e : ExecError} {p : Pipe} (h : Doomed ctx e p)
    (hhold : stage.Enters ctx stage.hold) (he : stage.Enters ctx entry) :
    Doomed ctx e (entry p) := by
  induction h generalizing entry with
  | @fail p q h =>
    refine .fail (q := stage.drop q) fun scope state hs => ?_
    rw [he _ scope state hs]
    exact (h scope state hs).dropped stage
  | @skip p q h hq ih =>
    refine .skip (fun scope state hs => ?_) (ih hhold)
    rw [he _ scope state hs]
    exact (h scope state hs).held stage

/-- A stage over a pipeline that waits does so too. -/
theorem Waits.hold {p : Pipe} (h : Waits ctx known p) (hhold : stage.Enters ctx stage.hold)
    (hopen : p.readers ≤ (stage.hold p).readers) : Waits ctx known (stage.hold p) where
  open' := Nat.lt_of_lt_of_le h.open' hopen
  blocked shared state hsize hdone hclean hs := by
    rw [hhold p (some shared) state hs, h.blocked shared state hsize hdone hclean hs]
    rfl
  reports e := by
    obtain ⟨q, hfail | ⟨hq, hskip⟩⟩ := h.reports e
    · refine ⟨stage.drop q, .inl fun shared state hfault hs => ?_⟩
      rw [hhold p _ state hs]
      exact (hfail shared state hfault hs).dropped stage
    · refine ⟨stage.hold q, .inr ⟨hq.enters hhold hhold, fun shared state hfault hs => ?_⟩⟩
      rw [hhold p _ state hs]
      exact (hskip shared state hfault hs).held stage

namespace Stage.Enters

variable {p q : Pipe} {f : Flow} {b : Binding}

theorem held {signal : Signal} (he : stage.Enters ctx entry) (h : Takes ctx all known p signal q)
    (hsignal : signal = .skip ∨ signal = .await) :
    Takes ctx all known (entry p) signal (stage.hold q) := by
  intro scope state hscope hs
  rw [he p scope state hs]
  exact ((h scope state hscope hs).held hsignal stage).1

theorem dropped {e : ExecError} (he : stage.Enters ctx entry)
    (h : Takes ctx all known p (.fail e) q) :
    Takes ctx all known (entry p) (.fail e) (stage.drop q) := by
  intro scope state hscope hs
  rw [he p scope state hs]
  exact ((h scope state hscope hs).dropped stage).1

/-- With a row of its input a stage does what it does with the row. -/
theorem row (he : stage.Enters ctx entry) (h : Takes ctx all known p (.yield b) q)
    (hrow : Continues ctx all known (stage.onRow b q) f) : Runs ctx all known (entry p) f := by
  refine hrow.runs fun scope state hscope hs => ?_
  obtain ⟨hsignal, hpipe, hrunning⟩ := h scope state hscope hs
  refine ⟨(p.step ctx scope state).events, (p.step ctx scope state).state, hrunning, ?_⟩
  rw [he p scope state hs, Step.feedOr, hsignal, hpipe]

/-- At the end of its input a stage does what it does at the end. -/
theorem done (he : stage.Enters ctx entry) (h : Takes ctx all known p .done q)
    (hend : Continues ctx all known (stage.onEnd q) f) : Runs ctx all known (entry p) f := by
  refine hend.runs fun scope state hscope hs => ?_
  obtain ⟨hsignal, hpipe, hrunning⟩ := h scope state hscope hs
  refine ⟨(p.step ctx scope state).events, (p.step ctx scope state).state, hrunning, ?_⟩
  rw [he p scope state hs, Step.feedOr, hsignal, hpipe]

end Stage.Enters

/-- **Runs of stages.** A stage over a pipeline that comes to a flow comes to what the stage makes
of the flow, if it does so with a row and at the end. The stage may change with each row. -/
theorem Runs.through {σ : Type} (stage : σ → Stage) (F : σ → Flow → Flow)
    (hhold : ∀ s, (stage s).Enters ctx (stage s).hold)
    (hopen : ∀ s q, q.readers ≤ ((stage s).hold q).readers)
    (hfail : ∀ s e, F s (.fail e) = .fail e)
    (hrow : ∀ s b q f known, (∀ s' entry, (stage s').Enters ctx entry →
      Runs ctx all known (entry q) (F s' f)) →
        Continues ctx all known ((stage s).onRow b q) (F s (.row b f)))
    (hend : ∀ s q known, Continues ctx all known ((stage s).onEnd q) (F s .done))
    {p : Pipe} {f : Flow} (h : Runs ctx all known p f) (s : σ) {entry : Pipe → Pipe}
    (he : (stage s).Enters ctx entry) : Runs ctx all known (entry p) (F s f) := by
  induction h generalizing s entry with
  | @yield known p q b f h hq ih =>
    exact he.row h (hrow s b q f known fun s' entry' he' => ih s' he')
  | @done known p q h => exact he.done h (hend s q known)
  | skip h hq ih => exact .skip (he.held h (.inl rfl)) (ih s (hhold s))
  | fail h =>
    rw [hfail]
    exact .fail (he.dropped h)
  | @wait known p q f shared hall hknown hend' h hw hq ih =>
    exact .wait hall hknown hend' (he.held h (.inr rfl)) (hw.hold (hhold s) (hopen s q))
      (ih s (hhold s))
  | @doom known p q e shared hall hknown hend' h hw =>
    rw [hfail]
    exact .doom hall hknown hend' (he.held h (.inr rfl)) (hw.hold (hhold s) (hopen s q))

/-- A stage that does not change comes to one flow per row, if it comes back to `idle` after the
flow of a row. -/
theorem Runs.binds (stage : Stage) (k : Binding → Flow) {idle entry : Pipe → Pipe}
    (hhold : stage.Enters ctx stage.hold) (hidle : stage.Enters ctx idle)
    (hopen : ∀ q, q.readers ≤ (stage.hold q).readers)
    (hrow : ∀ b q g known, Runs ctx all known (idle q) g →
      Continues ctx all known (stage.onRow b q) (k b ++ g))
    (hend : ∀ q known, Continues ctx all known (stage.onEnd q) .done)
    {p : Pipe} {f : Flow} (h : Runs ctx all known p f) (he : stage.Enters ctx entry) :
    Runs ctx all known (entry p) (f.bind k) :=
  h.through (fun _ : Unit => stage) (fun _ f => f.bind k) (fun _ => hhold) (fun _ => hopen)
    (fun _ _ => rfl) (fun _ b q _ known ih => hrow b q _ known (ih () idle hidle))
    (fun _ => hend) () he

/-- A pipeline without open readers takes its steps in every scope, and releases nothing. -/
theorem Takes.anywhere {p q : Pipe} {signal : Signal} {scope : Option SharedRows}
    (h : Takes ctx all known p signal q) (hscope : InScope all known scope) (hp : p.Counted)
    (hr : p.readers = 0) : (∀ scope state, state.cancelled = false →
      DoesQuietly (p.step ctx scope state) signal q) ∧ q.Counted ∧ q.readers = 0 := by
  have hdoes (scope' : Option SharedRows) (state : RunState) (hs : state.cancelled = false) :
      Does (p.step ctx scope' state) signal q := by
    rw [p.step_unscoped ctx hr scope' scope]
    exact h scope state hscope hs
  constructor
  · intro scope' state hs
    have hbalance := p.step_balance ctx hp scope' state
    rw [hr] at hbalance
    exact ⟨hdoes scope' state hs, (Nat.add_eq_zero_iff.1 hbalance).1⟩
  · have hcounted := p.step_counted ctx hp scope .initial
    have hbalance := p.step_balance ctx hp scope .initial
    rw [(hdoes scope .initial rfl).pipe] at hcounted hbalance
    exact ⟨hcounted, by omega⟩

/-- A stage over a pipeline that reads from no scope. Since nothing waits, nothing becomes known on
the way, and what has to be shown is about the present scope only. -/
theorem Runs.enclosed {σ : Type} (stage : σ → Stage) (F : σ → Flow → Flow)
    (hhold : ∀ s, (stage s).Enters ctx (stage s).hold) (hfail : ∀ s e, F s (.fail e) = .fail e)
    (hrow : ∀ s b q f, (∀ s' entry, (stage s').Enters ctx entry →
      Runs ctx all known (entry q) (F s' f)) →
        Continues ctx all known ((stage s).onRow b q) (F s (.row b f)))
    (hend : ∀ s q, Continues ctx all known ((stage s).onEnd q) (F s .done))
    {p : Pipe} {f : Flow} {start : Nat} (h : Runs ctx none start p f) (hp : p.Counted)
    (hr : p.readers = 0) (s : σ) {entry : Pipe → Pipe} (he : (stage s).Enters ctx entry) :
    Runs ctx all known (entry p) (F s f) := by
  -- the steps of the pipeline are the same in the present scope
  have helsewhere {p q : Pipe} {signal : Signal}
      (h : ∀ scope state, state.cancelled = false → DoesQuietly (p.step ctx scope state) signal q) :
      Takes ctx all known p signal q := fun scope state _ hs => (h scope state hs).toDoes
  induction h generalizing s entry with
  | @yield start p q b f h hq ih =>
    obtain ⟨hstep, hqc, hqr⟩ := h.anywhere rfl hp hr
    exact he.row (helsewhere hstep) (hrow s b q f fun s' entry' he' => ih hqc hqr s' he')
  | @done start p q h =>
    obtain ⟨hstep, -, -⟩ := h.anywhere rfl hp hr
    exact he.done (helsewhere hstep) (hend s q)
  | skip h hq ih =>
    obtain ⟨hstep, hqc, hqr⟩ := h.anywhere rfl hp hr
    exact .skip (he.held (helsewhere hstep) (.inl rfl)) (ih hqc hqr s (hhold s))
  | fail h =>
    obtain ⟨hstep, -, -⟩ := h.anywhere rfl hp hr
    rw [hfail]
    exact .fail (he.dropped (helsewhere hstep))
  | wait hall => cases hall
  | doom hall => cases hall

end Stages

end TripleQuery
