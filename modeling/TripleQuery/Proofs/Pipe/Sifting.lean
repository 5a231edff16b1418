import TripleQuery.Proofs.Pipe.Joins
import TripleQuery.Proofs.Pipe.Surplus

/-!
# Steps over surplus

A pipeline over a dataset that lists too much is followed by the pipeline without surplus over the
store. Each step of the first one does the same as a step of the second one, or reads a surplus
quad, by which its surplus shrinks and the second one is not concerned (`Pipe.Calm.follows`).

A step that waits for a scope needs more care, because whatever the scope reads next may take steps
of its own in between: the pipeline would wait again (`Follows.waits`), and it stands where no
surplus can get in between the scope's reading on and its reader's reporting of it (`Pipe.Ready`).
-/

namespace TripleQuery

/-! ## Steps that do the same -/

/-- The second step does the same as the first one, to the pipeline without surplus. -/
structure Step.Sifted (s t : Step) : Prop where
  signal : t.signal = s.signal
  pipe : t.pipe = s.pipe.sift
  events : t.events = s.events
  calm : s.pipe.Calm
  running : s.state.cancelled = false
  running' : t.state.cancelled = false
  acts : s.signal ≠ .await

/-- What a step of the pipeline in the state is to a step of the pipeline without surplus, over
another dataset. -/
inductive Follows (ctx : Context) (d : Dataset) (scope : Option SharedRows) (state : RunState)
    (p : Pipe) : Prop where
  /-- Both do the same. -/
  | acts (h : ∀ state', state'.cancelled = false →
      (p.step ctx scope state).Sifted (p.sift.step (ctx.given d) scope state'))
  /-- Both wait for the scope, and the second one would wait again. -/
  | waits (q : Pipe) (h : p.step ctx scope state = .quiet .await q state)
    (h' : ∀ state', state'.cancelled = false →
      p.sift.step (ctx.given d) scope state' = .quiet .await q.sift state')
    (again : ∀ state', state'.cancelled = false →
      q.sift.step (ctx.given d) (scope.map .clear) state' = .quiet .await q.sift state')
    (calm : q.Calm) (ready : q.Ready) (less : q.surplus ≤ p.surplus)
  /-- The first one reads a surplus quad, and the second one is about to do what it was before. -/
  | lags (q : Pipe) (last : RunState) (h : p.step ctx scope state = .quiet .skip q last)
    (running : last.cancelled = false)
    (same : ∀ state', state'.cancelled = false →
      q.sift.step (ctx.given d) scope state' = p.sift.step (ctx.given d) scope state')
    (calm : q.Calm) (unready : ¬ p.Ready) (less : q.surplus < p.surplus)

namespace Step.Sifted

variable {s t : Step}

theorem after (h : s.Sifted t) (events : List Event) : (s.after events).Sifted (t.after events) :=
  ⟨h.signal, h.pipe, congrArg (events ++ ·) h.events, h.calm, h.running, h.running', h.acts⟩

/-- The last steps of a stage. -/
theorem finish {ended ended' : Pipe → Pipe} {q : Pipe} {state state' : RunState} (hq : q.Calm)
    (hs : state.cancelled = false) (hs' : state'.cancelled = false)
    (hsift : ∀ r, (ended r).sift = ended' r.sift) (hcalm : ∀ r, r.Calm → (ended r).Calm) :
    (Step.finish ended q state).Sifted (Step.finish ended' q.sift state') := by
  unfold Step.finish
  rw [q.close_sift]
  exact ⟨rfl, (hsift _).symm, rfl, hcalm _ hq.close, hs, hs', nofun⟩

end Step.Sifted

/-! ## Stages -/

/-- The second stage does the same as the first one, to pipelines without surplus. The first one
has some surplus apart from that of its input. -/
structure Stage.Sifted (ctx : Context) (d : Dataset) (rest : Nat) (stage stage' : Stage) :
    Prop where
  hold : ∀ q, (stage.hold q).sift = stage'.hold q.sift
  drop : ∀ q, (stage.drop q).sift = stage'.drop q.sift
  calm : ∀ q, q.Calm → (stage.hold q).Calm ∧ (stage.drop q).Calm
  ready : ∀ q, q.Ready → (stage.hold q).Ready
  surplus : ∀ q, (stage.hold q).surplus = q.surplus + rest
  enters : stage'.Enters (ctx.given d) stage'.hold
  row : ∀ b q state state', q.Calm → state.cancelled = false → state'.cancelled = false →
    (stage.onRow b q state).Sifted (stage'.onRow b q.sift state')
  atEnd : ∀ q state state', q.Calm → state.cancelled = false → state'.cancelled = false →
    (stage.onEnd q state).Sifted (stage'.onEnd q.sift state')

namespace Stage.Sifted

variable {ctx : Context} {d : Dataset} {rest : Nat} {stage stage' : Stage}
  (h : stage.Sifted ctx d rest stage')

include h

theorem feedOr {s t : Step} (hs : s.Sifted t) :
    (s.feedOr stage.hold stage.drop stage.onRow stage.onEnd).Sifted
      (t.feedOr stage'.hold stage'.drop stage'.onRow stage'.onEnd) := by
  obtain ⟨signal, p, events, state⟩ := s
  obtain ⟨signal', p', events', state'⟩ := t
  obtain ⟨hsignal, hpipe, hevents, hcalm, hrun, hrun', hacts⟩ := hs
  dsimp only at hsignal hpipe hevents hcalm hrun hrun' hacts
  subst hsignal hpipe hevents
  cases signal' with
  | yield b => exact (h.row b p state state' hcalm hrun hrun').after events'
  | done => exact (h.atEnd p state state' hcalm hrun hrun').after events'
  | fail e => exact ⟨rfl, (h.drop p).symm, rfl, (h.calm p hcalm).2, hrun, hrun', hacts⟩
  | skip => exact ⟨rfl, (h.hold p).symm, rfl, (h.calm p hcalm).1, hrun, hrun', hacts⟩
  | await => exact absurd rfl hacts

/-- A stage follows if its input does. -/
theorem follows {entry entry' : Pipe → Pipe} (p : Pipe) {scope : Option SharedRows}
    {state : RunState} (he : stage.Enters ctx entry) (he' : stage'.Enters (ctx.given d) entry')
    (hsift : (entry p).sift = entry' p.sift) (hready : (entry p).Ready → p.Ready)
    (hsurplus : (entry p).surplus = p.surplus + rest) (hs : state.cancelled = false)
    (hp : Follows ctx d scope state p) : Follows ctx d scope state (entry p) := by
  cases hp with
  | acts hact =>
    refine .acts fun state' hs' => ?_
    rw [hsift, he p scope state hs, he' p.sift scope state' hs']
    exact h.feedOr (hact state' hs')
  | waits q hstep hstep' again hcalm hq hless =>
    refine .waits (stage.hold q) ?_ (fun state' hs' => ?_) (fun state' hs' => ?_) (h.calm q hcalm).1
      (h.ready q hq) ?_
    · rw [he p scope state hs, hstep]
      rfl
    · rw [hsift, he' p.sift scope state' hs', hstep' state' hs', h.hold]
      rfl
    · rw [h.hold, h.enters q.sift _ state' hs', again state' hs']
      rfl
    · rw [h.surplus, hsurplus]
      omega
  | lags q last hstep hlast same hcalm hunready hless =>
    refine .lags (stage.hold q) last ?_ hlast (fun state' hs' => ?_) (h.calm q hcalm).1
      (fun hentry => hunready (hready hentry)) ?_
    · rw [he p scope state hs, hstep]
      rfl
    · rw [h.hold, hsift, h.enters q.sift scope state' hs', he' p.sift scope state' hs',
        same state' hs']
    · rw [h.surplus, hsurplus]
      omega

end Stage.Sifted

namespace Runs

variable {ctx : Context} {d : Dataset} {store : QuadStore}

/-! ### Stages with one input -/

theorem filterStage_sifted (e : Expr) :
    (filterStage ctx e).Sifted ctx d 0 (filterStage (ctx.given d) e) where
  hold _ := rfl
  drop _ := rfl
  calm _ hq := ⟨hq, hq⟩
  ready _ hq := hq
  surplus _ := rfl
  enters := filterStage_enters e .active rfl
  row b q state state' hq hs hs' := by
    show (filterRow ctx e b q state).Sifted (filterRow (ctx.given d) e b q.sift state')
    unfold filterRow
    by_cases ha : e.admits b = true
    · rw [if_pos ha, if_pos ha]
      exact ⟨rfl, rfl, rfl, hq, hs, hs', nofun⟩
    · rw [if_neg ha, if_neg ha]
      exact ⟨rfl, rfl, rfl, hq, (RunState.recordFiltered_cancelled ..).trans hs,
        (RunState.recordFiltered_cancelled ..).trans hs', nofun⟩
  atEnd _ _ _ hq hs hs' := .finish hq hs hs' (fun _ => rfl) fun _ hr => hr

theorem projectStage_sifted (vars : List Variable) :
    (projectStage vars).Sifted ctx d 0 (projectStage vars) where
  hold _ := rfl
  drop _ := rfl
  calm _ hq := ⟨hq, hq⟩
  ready _ hq := hq
  surplus _ := rfl
  enters := projectStage_enters vars .active rfl
  row _ _ _ _ hq hs hs' := ⟨rfl, rfl, rfl, hq, hs, hs', nofun⟩
  atEnd _ _ _ hq hs hs' := .finish hq hs hs' (fun _ => rfl) fun _ hr => hr

theorem tableStage_sifted {rows : List Binding} (hrows : rows ≠ []) :
    (tableStage rows).Sifted ctx d 0 (tableStage rows) where
  hold _ := rfl
  drop _ := rfl
  calm _ hq := ⟨hq, hq⟩
  ready _ hq := hq
  surplus _ := rfl
  enters := tableStage_enters hrows .active rfl
  row _ _ _ _ hq hs hs' := ⟨rfl, rfl, rfl, hq, hs, hs', nofun⟩
  atEnd _ _ _ hq hs hs' := .finish hq hs hs' (fun _ => rfl) fun _ hr => hr

theorem sliceStage_sifted (skip : Nat) {remaining : Option Nat} (hr : remaining ≠ some 0) :
    (sliceStage skip remaining).Sifted ctx d 0 (sliceStage skip remaining) where
  hold _ := rfl
  drop _ := rfl
  calm _ hq := ⟨hq, hq⟩
  ready _ hq := hq
  surplus _ := rfl
  enters := sliceStage_enters skip hr .active rfl
  row b q state state' hq hs hs' := by
    show (sliceRow skip remaining b q state).Sifted (sliceRow skip remaining b q.sift state')
    unfold sliceRow
    split
    · exact ⟨rfl, rfl, rfl, hq, hs, hs', nofun⟩
    · split
      · rw [q.close_sift]
        exact ⟨rfl, rfl, rfl, hq.close, hs, hs', nofun⟩
      · exact ⟨rfl, rfl, rfl, hq, hs, hs', nofun⟩
    · exact ⟨rfl, rfl, rfl, hq, hs, hs', nofun⟩
  atEnd _ _ _ hq hs hs' := .finish hq hs hs' (fun _ => rfl) fun _ hr => hr

theorem distinctStage_sifted (limit : Nat) (seen : List Binding) :
    (distinctStage limit seen).Sifted ctx d 0 (distinctStage limit seen) where
  hold _ := rfl
  drop _ := rfl
  calm _ hq := ⟨hq, hq⟩
  ready _ hq := hq
  surplus _ := rfl
  enters := distinctStage_enters limit seen .active rfl
  row b q state state' hq hs hs' := by
    show (distinctRow seen limit b q state).Sifted (distinctRow seen limit b q.sift state')
    unfold distinctRow
    split
    · exact ⟨rfl, rfl, rfl, hq, hs, hs', nofun⟩
    · refine ⟨rfl, rfl, rfl, hq, hs, hs', ?_⟩
      show (if exceeds (b :: seen).length limit then Signal.fail _ else .yield b) ≠ .await
      split <;> nofun
  atEnd _ _ _ hq hs hs' := .finish hq hs hs' (fun _ => rfl) fun _ hr => hr

/-- A sort as a stage, whatever it has gathered. -/
def sortStage (ctx : Context) (keys : List SortKey)
    (keyed : Array (List (Option Term) × Binding)) : Stage where
  hold := .order .active keys (.gathering keyed)
  drop := .order .active keys (.gathering #[])
  onRow := orderRow ctx keys keyed
  onEnd := orderEnd keys keyed

theorem sortStage_enters (keys : List SortKey) (keyed : Array (List (Option Term) × Binding))
    (phase : Phase) (h : phase.isDone = false) :
    (sortStage ctx keys keyed).Enters ctx (.order phase keys (.gathering keyed)) :=
  fun _ _ _ _ => Pipe.step_order_gathering h

theorem sortStage_sifted (keys : List SortKey) (keyed : Array (List (Option Term) × Binding)) :
    (sortStage ctx keys keyed).Sifted ctx d 0 (sortStage (ctx.given d) keys keyed) where
  hold _ := rfl
  drop _ := rfl
  calm _ hq := ⟨hq, hq⟩
  ready _ hq := hq
  surplus _ := rfl
  enters := sortStage_enters keys keyed .active rfl
  row b q state state' hq hs hs' := by
    show (orderRow ctx keys keyed b q state).Sifted
      (orderRow (ctx.given d) keys keyed b q.sift state')
    unfold orderRow
    rw [RunState.checkCancelled_of_running hs, RunState.checkCancelled_of_running hs',
      Context.given_maxRows]
    dsimp only
    split <;> exact ⟨rfl, rfl, rfl, hq, hs, hs', nofun⟩
  atEnd q state state' hq hs hs' := by
    show (orderEnd keys keyed q state).Sifted (orderEnd keys keyed q.sift state')
    unfold orderEnd
    rw [q.close_sift]
    exact ⟨rfl, rfl, rfl, hq.close, hs, hs', nofun⟩

/-! ### Questions to the dataset -/

/-- What a scan finds, and what it finds without surplus. -/
theorem openScan_sifted (hd : ctx.dataset.Overlists store) (r : ScanRequest)
    (state state' : RunState) :
    ∃ quads : List Quad,
      ctx.openScan r state =
        (.ok (quads.map .quad), { state with scans := state.scans + 1 }) ∧
      (ctx.given store.dataset).openScan r state' =
        (.ok ((quads.map .quad).filter (CursorItem.worth r)),
          { state' with scans := state'.scans + 1 }) := by
  obtain ⟨quads, hscan, hquads⟩ := hd.scan state.scans r
  refine ⟨quads, ?_, ?_⟩
  · unfold Context.openScan
    rw [hscan]
    rfl
  · have hitems : (quads.map CursorItem.quad).filter (CursorItem.worth r) =
        (store.select r).map .quad := by
      rw [List.filter_map, ← hquads]
      rfl
    rw [hitems]
    rfl

theorem scanStage_sifted (hd : ctx.dataset.Overlists store) (pattern : TriplePattern)
    (slot : GraphSlot) :
    (scanStage ctx pattern slot).Sifted ctx store.dataset 0
      (scanStage (ctx.given store.dataset) pattern slot) where
  hold _ := rfl
  drop _ := rfl
  calm _ hq := ⟨⟨trivial, hq⟩, trivial, hq⟩
  ready _ hq := hq
  surplus q := Nat.zero_add q.surplus
  enters := scanStage_asking pattern slot
  row b q state state' hq hs hs' := by
    obtain ⟨quads, hopen, hopen'⟩ :=
      openScan_sifted hd (.ofPattern pattern slot b) state state'
    show (scanRow ctx pattern slot b q state).Sifted
      (scanRow (ctx.given store.dataset) pattern slot b q.sift state')
    unfold scanRow
    simp only [hopen, hopen']
    exact ⟨rfl, rfl, rfl, ⟨⟨quads, rfl⟩, hq⟩, hs, hs', nofun⟩
  atEnd _ _ _ hq hs hs' := .finish hq hs hs' (fun _ => rfl) fun _ hr => ⟨trivial, hr⟩

/-- The graph names are the same. -/
theorem loadNames_sifted (hd : ctx.dataset.Overlists store) (known : Option (List Term))
    {state state' : RunState} (hs : state.cancelled = false) (hs' : state'.cancelled = false) :
    ∃ names events last last',
      ctx.loadNames known state = (.ok names, events, last) ∧
      (ctx.given store.dataset).loadNames known state' = (.ok names, events, last') ∧
      last.cancelled = false ∧ last'.cancelled = false := by
  cases known with
  | some names => exact ⟨names, [], state, state', rfl, rfl, hs, hs'⟩
  | none =>
    refine ⟨store.graphNames, [.listing], { state with listings := state.listings + 1 },
      { state' with listings := state'.listings + 1 }, ?_, rfl, hs, hs'⟩
    unfold Context.loadNames
    rw [hd.graphNames]
    rfl

theorem namesStage_sifted (hd : ctx.dataset.Overlists store) (name : TermPattern)
    (known : Option (List Term)) :
    (namesStage ctx name known).Sifted ctx store.dataset 0
      (namesStage (ctx.given store.dataset) name known) where
  hold _ := rfl
  drop _ := rfl
  calm _ hq := ⟨hq, hq⟩
  ready _ hq := hq
  surplus _ := rfl
  enters := namesStage_enters name known .active rfl
  row b q state state' hq hs hs' := by
    obtain ⟨names, events, last, last', hload, hload', hlast, hlast'⟩ :=
      loadNames_sifted hd known hs hs'
    show (namesRow ctx name known b q state).Sifted
      (namesRow (ctx.given store.dataset) name known b q.sift state')
    unfold namesRow
    simp only [hload, hload']
    exact ⟨rfl, rfl, rfl, hq, hlast, hlast', nofun⟩
  atEnd _ _ _ hq hs hs' := .finish hq hs hs' (fun _ => rfl) fun _ hr => hr

theorem graphsStage_sifted (hd : ctx.dataset.Overlists store) (var : Variable) {sub : Op}
    (hsub : sub.Plain) (known : Option (List Term)) :
    (graphsStage ctx var sub known).Sifted ctx store.dataset 0
      (graphsStage (ctx.given store.dataset) var sub known) where
  hold _ := rfl
  drop _ := rfl
  calm _ hq := ⟨⟨hsub, hq⟩, hsub, hq⟩
  ready _ hq := hq
  surplus _ := rfl
  enters := graphsStage_asking known
  row b q state state' hq hs hs' := by
    obtain ⟨names, events, last, last', hload, hload', hlast, hlast'⟩ :=
      loadNames_sifted hd known hs hs'
    show (graphsRow ctx var sub known b q state).Sifted
      (graphsRow (ctx.given store.dataset) var sub known b q.sift state')
    unfold graphsRow
    simp only [hload, hload']
    exact ⟨rfl, rfl, rfl, ⟨hsub, hq⟩, hlast, hlast', nofun⟩
  atEnd _ _ _ hq hs hs' := .finish hq hs hs' (fun _ => rfl) fun _ hr => ⟨hsub, hr⟩

theorem withinStage_sifted (var : Variable) {sub : Op} (hsub : sub.Plain)
    (known : Option (List Term)) (row : Binding) (candidates : List Term) {input : Pipe}
    (hi : input.Calm) :
    (withinStage var sub known row candidates input).Sifted ctx d input.surplus
      (withinStage var sub known row candidates input.sift) where
  hold _ := rfl
  drop _ := rfl
  calm _ hq := ⟨⟨hsub, hq, hi⟩, hsub, hq, hi⟩
  ready _ hq := hq
  surplus _ := rfl
  enters := withinStage_enters row candidates input.sift
  row _ _ _ _ hq hs hs' := ⟨rfl, rfl, rfl, ⟨hsub, hq, hi⟩, hs, hs', nofun⟩
  atEnd q _ _ _ hs hs' := by
    have hevents : q.sift.close.2 = q.close.2 := by rw [q.close_sift]
    exact ⟨rfl, rfl, hevents, ⟨hsub, hi⟩, hs, hs', nofun⟩

/-! ### Joins -/

section Joins

variable {kind : JoinKind} {condition : Option Expr} {sub : Op} {g : ActiveGraph}

theorem joinFinish_sifted {left right : Pipe} {state state' : RunState} (hl : left.Calm)
    (hr : right.Calm) (hs : state.cancelled = false) (hs' : state'.cancelled = false) :
    (joinFinish kind condition left right state).Sifted
      (joinFinish kind condition left.sift right.sift state') := by
  unfold joinFinish
  rw [left.close_sift, right.close_sift]
  exact ⟨rfl, rfl, rfl, ⟨hl.close, hr.close⟩, hs, hs', nofun⟩

theorem joinRight_sifted {left : Pipe} (hl : left.Calm) (rows : List Binding) :
    (joinRight ctx kind condition left rows).Sifted ctx d left.surplus
      (joinRight (ctx.given d) kind condition left.sift rows) where
  hold _ := rfl
  drop _ := rfl
  calm _ hq := ⟨⟨hl, hq⟩, hl, hq⟩
  ready _ hq := hq
  surplus q := Nat.add_comm left.surplus q.surplus
  enters := joinRight_enters left.sift rows .active rfl
  row b q state state' hq hs hs' := by
    show (joinGather ctx kind condition rows.toArray left b q state).Sifted
      (joinGather (ctx.given d) kind condition rows.toArray left.sift b q.sift state')
    unfold joinGather
    refine ⟨rfl, rfl, rfl, ⟨hl, hq⟩, hs, hs', ?_⟩
    show (if exceeds (rows.toArray.push b).size ctx.maxRows then Signal.fail _ else .skip) ≠ .await
    split <;> nofun
  atEnd q state state' hq hs hs' := by
    show (joinGathered kind condition rows.toArray left q state).Sifted
      (joinGathered kind condition rows.toArray left.sift q.sift state')
    unfold joinGathered
    rw [q.close_sift]
    refine Step.Sifted.after ?_ q.close.2
    split
    · exact joinFinish_sifted hl hq.close hs hs'
    · exact ⟨rfl, rfl, rfl, ⟨hl, hq.close⟩, hs, hs', nofun⟩

theorem joinLeft_sifted (rows : List Binding) {right : Pipe} (hr : right.Calm) :
    (joinLeft kind condition rows right).Sifted ctx d right.surplus
      (joinLeft kind condition rows right.sift) where
  hold _ := rfl
  drop _ := rfl
  calm _ hq := ⟨⟨hq, hr⟩, hq, hr⟩
  ready _ hq := hq
  surplus _ := rfl
  enters := joinLeft_enters rows right.sift
  row _ _ _ _ hq hs hs' := ⟨rfl, rfl, rfl, ⟨hq, hr⟩, hs, hs', nofun⟩
  atEnd _ _ _ hq hs hs' := joinFinish_sifted hq hr hs hs'

theorem optionalStage_sifted (hsub : sub.Plain) :
    (optionalStage ctx sub condition g).Sifted ctx d 0
      (optionalStage (ctx.given d) sub condition g) where
  hold _ := rfl
  drop _ := rfl
  calm _ hq := ⟨⟨hsub, hq⟩, hsub, hq⟩
  ready _ hq := hq
  surplus _ := rfl
  enters := optionalStage_enters .active rfl
  row b q state state' hq hs hs' := by
    have hprobe := sub.pipe_fresh hsub ctx g (Seed.single_fresh b)
    show (optionalRow ctx sub condition g b q state).Sifted
      (optionalRow (ctx.given d) sub condition g b q.sift state')
    rw [optionalRow_plain hsub, optionalRow_plain hsub, sub.pipe_given hsub]
    refine ⟨rfl, ?_, rfl, ⟨hsub, hprobe.calm, hq⟩, hs, hs', nofun⟩
    exact congrArg (Pipe.probing sub condition g b false · q.sift) hprobe.sift.symm
  atEnd _ _ _ hq hs hs' := .finish hq hs hs' (fun _ => rfl) fun _ hr => ⟨hsub, hr⟩

theorem probeStage_sifted (hsub : sub.Plain) (row : Binding) {input : Pipe} (hi : input.Calm)
    (matched : Bool) :
    (probeStage sub condition g row input matched).Sifted ctx d input.surplus
      (probeStage sub condition g row input.sift matched) where
  hold _ := rfl
  drop _ := rfl
  calm _ hq := ⟨⟨hsub, hq, hi⟩, hsub, hq, hi⟩
  ready _ hq := hq
  surplus _ := rfl
  enters := probeStage_enters row input.sift matched
  row b q state state' hq hs hs' := by
    show (probeRow sub condition g row matched input b q state).Sifted
      (probeRow sub condition g row matched input.sift b q.sift state')
    unfold probeRow
    split <;> exact ⟨rfl, rfl, rfl, ⟨hsub, hq, hi⟩, hs, hs', nofun⟩
  atEnd q state state' hq hs hs' := by
    show (probeEnd sub condition g row matched input q state).Sifted
      (probeEnd sub condition g row matched input.sift q.sift state')
    unfold probeEnd
    rw [q.close_sift]
    refine ⟨rfl, rfl, rfl, ⟨hsub, hi⟩, hs, hs', ?_⟩
    cases matched <;> nofun

end Joins

/-! ### Concatenations -/

theorem concatFirst_sifted {rest : Pipe} (hr : rest.Calm) :
    (concatFirst rest).Sifted ctx d rest.surplus (concatFirst rest.sift) where
  hold _ := rfl
  drop _ := rfl
  calm _ hq := ⟨⟨hq, hr⟩, hq, hr⟩
  ready _ hq := hq
  surplus _ := rfl
  enters := concatFirst_enters rest.sift .active rfl
  row _ _ _ _ hq hs hs' := ⟨rfl, rfl, rfl, ⟨hq, hr⟩, hs, hs', nofun⟩
  atEnd q _ _ hq hs hs' := by
    have hpipe : q.sift.close.1 = q.close.1.sift := by rw [q.close_sift]
    have hevents : q.sift.close.2 = q.close.2 := by rw [q.close_sift]
    exact ⟨rfl, congrArg (Pipe.concat .active true · rest.sift) hpipe, hevents, ⟨hq.close, hr⟩, hs,
      hs', nofun⟩

theorem concatRest_sifted {first : Pipe} (hf : first.Calm) :
    (concatRest first).Sifted ctx d first.surplus (concatRest first.sift) where
  hold _ := rfl
  drop _ := rfl
  calm _ hq := ⟨⟨hf, hq⟩, hf, hq⟩
  ready _ hq := hq
  surplus q := Nat.add_comm first.surplus q.surplus
  enters := concatRest_enters first.sift
  row _ _ _ _ hq hs hs' := ⟨rfl, rfl, rfl, ⟨hf, hq⟩, hs, hs', nofun⟩
  atEnd _ _ _ hq hs hs' := ⟨rfl, rfl, rfl, ⟨hf, hq⟩, hs, hs', nofun⟩

end Runs

/-! ## All pipelines -/

section Pipelines

variable {ctx : Context} {d : Dataset} {store : QuadStore} {scope : Option SharedRows}
  {state : RunState} {phase : Phase} {input : Pipe}

open Runs

/-- Steps that are known on both sides. -/
theorem Follows.of_steps {p : Pipe} {s : Step} {t : RunState → Step}
    (hs : p.step ctx scope state = s)
    (ht : ∀ state', p.sift.step (ctx.given d) scope state' = t state')
    (h : ∀ state', state'.cancelled = false → s.Sifted (t state')) :
    Follows ctx d scope state p := by
  refine .acts fun state' hs' => ?_
  rw [hs, ht state']
  exact h state' hs'

/-- What is at hand is so without surplus. -/
theorem Pipe.AtHand.sift {p q : Pipe} {signal : Signal} (h : AtHand state p signal q)
    (hp : p.Calm) (hs : state.cancelled = false) (state' : RunState) :
    q.Calm ∧ AtHand state' p.sift signal q.sift := by
  cases h with
  | spent h => exact ⟨hp, .spent (p.sift_isSpent.trans h)⟩
  | bindings_nil h => exact ⟨trivial, .bindings_nil h⟩
  | bindings_cons h => exact ⟨trivial, .bindings_cons h⟩
  | script_nil | script_row | script_fail => cases hp
  | scan_cancelled h hc | graphs_cancelled h hc => cases hs.symm.trans hc
  | names_cons h => exact ⟨hp, .names_cons h⟩
  | order_nil h => exact ⟨hp, .order_nil h⟩
  | order_cons h => exact ⟨hp, .order_cons h⟩
  | concatEnd h => exact ⟨trivial, .concatEnd h⟩

/-! ### Readers and scopes -/

theorem replay_follows (h : phase.isDone = false) (position : Nat) (hs : state.cancelled = false) :
    Follows ctx d scope state (.replay phase position) := by
  have hactive : phase.activate = .active := by
    cases phase with
    | created | active => rfl
    | exhausted | closed => cases h
  have hacts (signal : Signal) (after : Phase) (next : Nat) (hacts : signal ≠ .await)
      (hstep : ∀ state, replayStep scope phase position state =
        .quiet signal (.replay after next) state) :
      Follows ctx d scope state (.replay phase position) := by
    exact .of_steps ((Pipe.step_replay h).trans (hstep state))
      (fun state' => (Pipe.step_replay h).trans (hstep state'))
      fun _ hs' => ⟨rfl, rfl, rfl, trivial, hs, hs', hacts⟩
  have hwaits (hstep : ∀ phase state, phase.activate = .active →
      (replayStep scope phase position state = .quiet .await (.replay .active position) state ∧
        replayStep (scope.map .clear) phase position state =
          .quiet .await (.replay .active position) state)) :
      Follows ctx d scope state (.replay phase position) := by
    exact .waits (.replay .active position)
      ((Pipe.step_replay h).trans (hstep phase state hactive).1)
      (fun state' _ => (Pipe.step_replay h).trans (hstep phase state' hactive).1)
      (fun state' _ => (Pipe.step_replay rfl).trans (hstep .active state' rfl).2) trivial trivial
      (Nat.le_refl 0)
  cases scope with
  | none =>
    refine hwaits fun phase state hphase => ?_
    unfold replayStep
    rw [hphase]
    exact ⟨rfl, rfl⟩
  | some shared =>
    cases hfault : shared.fault with
    | some e =>
      refine hacts (.fail e) phase.activate position nofun fun state => ?_
      unfold replayStep
      simp only [hfault]
    | none =>
      cases hrow : shared.rows[position]? with
      | some row =>
        refine hacts (.yield row) phase.activate (position + 1) nofun fun state => ?_
        unfold replayStep
        simp only [hfault, hrow]
      | none =>
        cases hdone : shared.inputDone with
        | true =>
          refine hacts .done phase.exhaust position nofun fun state => ?_
          unfold replayStep
          simp only [hfault, hrow, hdone, if_true]
        | false =>
          refine hwaits fun phase state hphase => ?_
          have hclear : (some shared).map SharedRows.clear = some shared :=
            congrArg some (Pipe.clear_of_clean hfault)
          rw [hclear]
          unfold replayStep
          simp only [hfault, hrow, hdone, hphase]
          exact ⟨rfl, rfl⟩

section Scopes

variable {shared : SharedRows} {body : Pipe}

/-- A scope reads on if its body waits. -/
theorem share_waits {r : Pipe} (h : body.step ctx (some shared) state = .quiet .await r state) :
    (Pipe.share shared input body).step ctx scope state =
      shareRead shared.clear r [] (input.step ctx scope state) := by
  rw [Pipe.step_share, h]
  rfl

theorem shareSettle_sifted {s t : Step} (h : s.Sifted t) (hi : input.Calm) :
    (shareSettle shared input s).Sifted (shareSettle shared input.sift t) := by
  have hsettle := settle_sift shared.clear input (fun _ => input.close)
    (fun _ => input.sift.close) input.close_sift s.events
  obtain ⟨hfault, hcalm⟩ :=
    settle_calm shared.clear hi (fun _ => input.close) hi.close s.events
  unfold shareSettle
  rw [h.events, h.signal, h.pipe, hsettle]
  refine ⟨rfl, rfl, rfl, ⟨.inl hfault, hcalm, h.calm⟩, h.running, h.running', ?_⟩
  show ite .. ≠ Signal.await
  rw [if_neg h.acts]
  exact h.acts

theorem shareRead_sifted {r : Pipe} {s t : Step} (h : s.Sifted t) (hr : r.Calm)
    (hready : r.Ready) :
    (shareRead shared r [] s).Sifted (shareRead shared r.sift [] t) := by
  unfold shareRead
  rw [h.events, h.signal, h.pipe, if_neg h.acts]
  exact ⟨rfl, rfl, rfl, ⟨.inr (.inr hready), h.calm, hr⟩, h.running, h.running', nofun⟩

/-- A scope follows if its body and its input do. -/
theorem share_follows (hp : (Pipe.share shared input body).Calm)
    (hbody : Follows ctx d (some shared) state body) (hinput : Follows ctx d scope state input) :
    Follows ctx d scope state (.share shared input body) := by
  obtain ⟨hquiet, hic, hbc⟩ := hp
  cases hbody with
  | acts h =>
    refine .acts fun state' hs' => ?_
    have hact := h state' hs'
    rw [Pipe.sift, Pipe.step_share, Pipe.step_share, hact.events, hact.signal, if_neg hact.acts,
      if_neg hact.acts]
    split
    · exact shareSettle_sifted hact hic
    · exact ⟨hact.signal, congrArg (Pipe.share shared.clear input.sift) hact.pipe, hact.events,
        ⟨.inl rfl, hic, hact.calm⟩, hact.running, hact.running', hact.acts⟩
  | waits r h h' again hr hready hless =>
    -- the body waits again whatever the input does, so that only the input matters
    have hbefore (state' : RunState) (hs' : state'.cancelled = false) :
        (Pipe.share shared input.sift body.sift).step (ctx.given d) scope state' =
          shareRead shared.clear r.sift [] (input.sift.step (ctx.given d) scope state') :=
      share_waits (h' state' hs')
    have hafter (q : Pipe) (scope : Option SharedRows) (state' : RunState)
        (hs' : state'.cancelled = false) :
        (Pipe.share shared.clear q.sift r.sift).step (ctx.given d) scope state' =
          shareRead shared.clear r.sift [] (q.sift.step (ctx.given d) scope state') :=
      share_waits (again state' hs')
    cases hinput with
    | acts hact =>
      refine .acts fun state' hs' => ?_
      rw [Pipe.sift, share_waits h, hbefore state' hs']
      exact shareRead_sifted (hact state' hs') hr hready
    | waits q hq hq' qagain hqc hqready hqless =>
      refine .waits (.share shared.clear q r) ?_ (fun state' hs' => ?_) (fun state' hs' => ?_)
        ⟨.inl rfl, hqc, hr⟩ ⟨hready, hqready⟩ (Nat.add_le_add hqless hless)
      · rw [share_waits h, hq]
        rfl
      · rw [Pipe.sift, hbefore state' hs', hq' state' hs']
        rfl
      · rw [Pipe.sift, hafter q _ state' hs', qagain state' hs']
        rfl
    | lags q last hq hlast same hqc hunready hqless =>
      refine .lags (.share shared.clear q r) last ?_ hlast (fun state' hs' => ?_)
        ⟨.inl rfl, hqc, hr⟩ (fun hboth => hunready hboth.2)
        (Nat.add_lt_add_of_lt_of_le hqless hless)
      · rw [share_waits h, hq]
        rfl
      · rw [Pipe.sift, Pipe.sift, hafter q scope state' hs', hbefore state' hs', same state' hs']
  | lags q last h hlast same hq hunready hless =>
    -- a body that reads a quad is neither at its end nor about to report what the scope has noted
    have hclean : shared.fault = none := by
      rcases hquiet with hclean | hdone | hready
      · exact hclean
      · have hends := body.step_ended ctx (some shared) state hdone
        rw [h] at hends
        cases hends.signal
      · exact absurd hready hunready
    have hstep {ctx : Context} {body q : Pipe} {state last : RunState} (input : Pipe)
        (h : body.step ctx (some shared) state = .quiet .skip q last) :
        (Pipe.share shared input body).step ctx scope state =
          .quiet .skip (.share shared input q) last := by
      rw [Pipe.step_share, h, Pipe.clear_of_clean hclean]
      rfl
    refine .lags (.share shared input q) last (hstep input h) hlast (fun state' hs' => ?_)
      ⟨.inl hclean, hic, hq⟩ (fun hboth => hunready hboth.1) (Nat.add_lt_add_left hless _)
    rw [Pipe.sift, Pipe.sift, Pipe.step_share, Pipe.step_share, same state' hs']

end Scopes

/-! ### Scans -/

/-- A scan that reads quads skips those that are surplus. -/
theorem scan_reading_follows (h : phase.isDone = false) (pattern : TriplePattern)
    (slot : GraphSlot) (row : Binding) (quads : List Quad) (hi : input.Calm)
    (hs : state.cancelled = false) :
    Follows ctx d scope state
      (.scan phase pattern slot (.reading row (quads.map .quad)) input) := by
  have hrecorded (ctx : Context) {state : RunState} (hs : state.cancelled = false) :
      (state.recordScanned ctx.config 1).cancelled = false :=
    (RunState.recordScanned_cancelled ..).trans hs
  cases quads with
  | nil =>
    exact .of_steps (Pipe.step_scan_reading h) (fun _ => Pipe.step_scan_reading h)
      fun _ hs' => ⟨rfl, rfl, rfl, ⟨trivial, hi⟩, hs, hs', nofun⟩
  | cons q quads =>
    cases hwanted : (ScanRequest.ofPattern pattern slot row).wants q with
    | true =>
      have hstep (state' : RunState) :
          (Pipe.scan phase pattern slot (.sift pattern slot (.reading row (.quad q ::
            quads.map .quad))) input.sift).step (ctx.given d) scope state' =
          scanItem (ctx.given d) pattern slot row (.quad q ::
            (quads.map .quad).filter (CursorItem.worth (.ofPattern pattern slot row)))
            input.sift state' := by
        rw [ScanState.sift_wanted hwanted]
        exact Pipe.step_scan_reading h
      refine .of_steps (Pipe.step_scan_reading h) hstep fun _ hs' =>
        ⟨rfl, rfl, rfl, ⟨⟨quads, rfl⟩, hi⟩, hrecorded ctx hs, hrecorded (ctx.given d) hs', ?_⟩
      show (bindQuad pattern slot row q).elim Signal.skip .yield ≠ .await
      cases bindQuad pattern slot row q <;> nofun
    | false =>
      refine .lags (.scan .active pattern slot (.reading row (quads.map .quad)) input)
        (state.recordScanned ctx.config 1) ?_ (hrecorded ctx hs) (fun state' _ => ?_)
        ⟨⟨quads, rfl⟩, hi⟩ id ?_
      · rw [List.map_cons, Pipe.step_scan_reading h, scanItem, bindQuad_of_surplus hwanted]
        rfl
      · show (Pipe.scan .active pattern slot _ input.sift).step (ctx.given d) scope state' =
          (Pipe.scan phase pattern slot (.sift pattern slot (.reading row (.quad q :: _)))
            input.sift).step (ctx.given d) scope state'
        rw [ScanState.sift_of_surplus hwanted]
        exact (Pipe.step_scan_reading rfl).trans (Pipe.step_scan_reading h).symm
      · show ScanState.surplus pattern slot _ + input.surplus <
          ScanState.surplus pattern slot (.reading row (.quad q :: _)) + input.surplus
        rw [ScanState.surplus_cons hwanted]
        omega

/-! ### Subtrees in graphs -/

theorem graphsTry_sifted {sub : Op} (hsub : sub.Plain) (var : Variable)
    (known : Option (List Term)) (row : Binding) (candidates : List Term) {state' : RunState}
    (hi : input.Calm) (hs : state.cancelled = false) (hs' : state'.cancelled = false) :
    (graphsTry ctx var sub known row candidates input state).Sifted
      (graphsTry (ctx.given d) var sub known row candidates input.sift state') := by
  cases candidates with
  | nil => exact ⟨rfl, rfl, rfl, ⟨hsub, hi⟩, hs, hs', nofun⟩
  | cons name candidates =>
    cases hseed : row.extend var name with
    | error c =>
      rw [graphsTry_error ctx hseed, graphsTry_error (ctx.given d) hseed]
      exact ⟨rfl, rfl, rfl, ⟨hsub, hi⟩, hs, hs', nofun⟩
    | ok seed =>
      have hinner := sub.pipe_fresh hsub ctx (.named name) (Seed.single_fresh seed)
      rw [graphsTry_ok hsub ctx hseed, graphsTry_ok hsub (ctx.given d) hseed, sub.pipe_given hsub]
      refine ⟨rfl, ?_, rfl, ⟨hsub, hinner.calm, hi⟩, hs, hs', nofun⟩
      exact congrArg (Pipe.within var sub known row candidates · input.sift) hinner.sift.symm

/-! ### Stages that need no input -/

theorem joinTry_sifted {left right : Pipe} (hl : left.Calm) (hr : right.Calm) (kind : JoinKind)
    (condition : Option Expr) (rows : List Binding) (row : Binding) (untried : List Binding)
    (matched : Bool) {state' : RunState} (hs : state.cancelled = false)
    (hs' : state'.cancelled = false) :
    (joinTry kind condition rows row untried matched left right state).Sifted
      (joinTry kind condition rows row untried matched left.sift right.sift state') := by
  unfold joinTry
  split
  · refine ⟨rfl, rfl, rfl, ⟨hl, hr⟩, hs, hs', ?_⟩
    show (if kind = .left ∧ !matched then Signal.yield row else .skip) ≠ .await
    split <;> nofun
  · dsimp only
    split
    · exact ⟨rfl, rfl, rfl, ⟨hl, hr⟩, hs, hs', nofun⟩
    · split <;> exact ⟨rfl, rfl, rfl, ⟨hl, hr⟩, hs, hs', nofun⟩

theorem tableTry_sifted (hi : input.Calm) (rows : List Binding) (row : Binding)
    (untried : List Binding) {state' : RunState} (hs : state.cancelled = false)
    (hs' : state'.cancelled = false) :
    (tableTry rows row untried input state).Sifted
      (tableTry rows row untried input.sift state') := by
  unfold tableTry
  split
  · exact ⟨rfl, rfl, rfl, hi, hs, hs', nofun⟩
  · next other untried =>
    refine ⟨rfl, rfl, rfl, hi, hs, hs', ?_⟩
    show (row.merge other).toOption.elim Signal.skip .yield ≠ .await
    cases (row.merge other).toOption <;> nofun

/-! ### The main lemma -/

/-- **Surplus is skipped.** Over a dataset that lists too much, each step of a pipeline does what
the pipeline without surplus does over the store, or it reads a surplus quad. -/
theorem Pipe.Calm.follows (hd : ctx.dataset.Overlists store) {p : Pipe} (hp : p.Calm)
    (scope : Option SharedRows) {state : RunState} (hs : state.cancelled = false) :
    Follows ctx store.dataset scope state p := by
  induction p, state using step_induction generalizing scope with
  | at_hand h =>
    refine .acts fun state' hs' => ?_
    obtain ⟨hq, h'⟩ := h.sift hp hs state'
    rw [h.step_eq, h'.step_eq]
    exact ⟨rfl, rfl, rfl, hq, hs, hs', h.ne_await⟩
  | tracked => cases hp
  | replay h => exact replay_follows h _ hs
  | share ihi ihb => exact share_follows hp (ihb hp.2.2 (some _) hs) (ihi _ hp.2.1 scope hs)
  | scan_reading h =>
    obtain ⟨⟨quads, rfl⟩, hi⟩ := hp
    exact scan_reading_follows h _ _ _ quads hi hs
  | @scan phase pattern slot at' input state h ha ih =>
    obtain ⟨-, hi⟩ := hp
    have he (ctx : Context) : (scanStage ctx pattern slot).Enters ctx
        (.scan phase pattern slot at') := fun _ _ _ hs => step_scan h (ha.running hs)
    cases at' with
    | reading => cases ha
    | asking | idle =>
      exact (scanStage_sifted hd pattern slot).follows input (he ctx) (he _) rfl id
        (Nat.zero_add _) hs (ih hi scope hs)
  | @filter phase e input state h ih =>
    exact (filterStage_sifted e).follows input (filterStage_enters e phase h)
      (filterStage_enters e phase h) rfl id rfl hs (ih hp scope hs)
  | @join_gathering phase kind condition rows left right state h ih =>
    obtain ⟨hl, hr⟩ := hp
    obtain ⟨rows⟩ := rows
    exact (joinRight_sifted hl rows).follows right (joinRight_enters left rows phase h)
      (joinRight_enters left.sift rows phase h) rfl id (Nat.add_comm ..) hs (ih hr scope hs)
  | @join_idle phase kind condition rows left right state h ih =>
    obtain ⟨hl, hr⟩ := hp
    have he (ctx : Context) (right : Pipe) : (joinLeft kind condition rows right).Enters ctx
        fun left => .join phase kind condition (.idle rows) left right :=
      fun _ _ _ _ => step_join_idle h
    exact (joinLeft_sifted rows hr).follows left (he ctx right) (he _ right.sift) rfl id rfl
      hs (ih hl scope hs)
  | join_trying h =>
    exact .of_steps (step_join_trying h) (fun _ => step_join_trying h)
      fun _ hs' => joinTry_sifted hp.1 hp.2 _ _ _ _ _ _ hs hs'
  | @optional phase _ _ _ input _ h ih =>
    exact (optionalStage_sifted hp.1).follows input (optionalStage_enters phase h)
      (optionalStage_enters phase h) rfl id rfl hs (ih hp.2 scope hs)
  | @probing _ _ _ row matched probe input _ ih =>
    obtain ⟨hsub, hprobe, hi⟩ := hp
    exact (probeStage_sifted hsub row hi matched).follows probe
      (probeStage_enters row input matched) (probeStage_enters row input.sift matched) rfl id rfl hs
      (ih hprobe scope hs)
  | graphs_trying h =>
    exact .of_steps (step_graphs_trying h) (fun _ => step_graphs_trying h)
      fun _ hs' => graphsTry_sifted hp.1 _ _ _ _ hp.2 hs hs'
  | @graphs phase var sub known at' input state h ha ih =>
    obtain ⟨hsub, hi⟩ := hp
    have he (ctx : Context) : (graphsStage ctx var sub known).Enters ctx
        (.graphs phase var sub known at') := fun _ _ _ hs => step_graphs h (ha.running hs)
    exact (graphsStage_sifted hd var hsub known).follows input (he ctx) (he _) rfl id rfl hs
      (ih hi scope hs)
  | @within var _ known row candidates inner input _ ih =>
    obtain ⟨hsub, hinner, hi⟩ := hp
    exact (withinStage_sifted var hsub known row candidates hi).follows inner
      (withinStage_enters row candidates input) (withinStage_enters row candidates input.sift) rfl
      id rfl hs (ih hinner scope hs)
  | @names phase name known input _ h ih =>
    exact (namesStage_sifted hd name known).follows input (namesStage_enters name known phase h)
      (namesStage_enters name known phase h) rfl id rfl hs (ih hp scope hs)
  | table_nil h =>
    exact .of_steps (step_table_nil h) (fun _ => step_table_nil h)
      fun _ hs' => .finish hp hs hs' (fun _ => rfl) fun _ hr => hr
  | @table_trying _ rows row untried input _ h hrows =>
    have hi : input.Calm := hp
    exact .of_steps (step_table_trying h hrows) (fun _ => step_table_trying h hrows)
      fun _ hs' => tableTry_sifted hi rows row untried hs hs'
  | @table_idle phase _ input _ h hrows ih =>
    exact (tableStage_sifted hrows).follows input (tableStage_enters hrows phase h)
      (tableStage_enters hrows phase h) rfl id rfl hs (ih hp scope hs)
  | @order phase keys keyed input _ h ih =>
    exact (sortStage_sifted keys keyed).follows input (sortStage_enters keys keyed phase h)
      (sortStage_enters keys keyed phase h) rfl id rfl hs (ih hp scope hs)
  | @project phase vars input _ h ih =>
    exact (projectStage_sifted vars).follows input (projectStage_enters vars phase h)
      (projectStage_enters vars phase h) rfl id rfl hs (ih hp scope hs)
  | @distinct phase seen limit input _ h ih =>
    exact (distinctStage_sifted limit seen).follows input (distinctStage_enters limit seen phase h)
      (distinctStage_enters limit seen phase h) rfl id rfl hs (ih hp scope hs)
  | slice_zero h =>
    exact .of_steps (step_slice_zero h) (fun _ => step_slice_zero h)
      fun _ hs' => .finish hp hs hs' (fun _ => rfl) fun _ hr => hr
  | @slice phase skip _ input _ h hzero ih =>
    exact (sliceStage_sifted skip hzero).follows input (sliceStage_enters skip hzero phase h)
      (sliceStage_enters skip hzero phase h) rfl id rfl hs (ih hp scope hs)
  | @concat_first phase first rest _ h ih =>
    exact (concatFirst_sifted hp.2).follows first (concatFirst_enters rest phase h)
      (concatFirst_enters rest.sift phase h) rfl id rfl hs (ih hp.1 scope hs)
  | @concat_rest phase first rest _ h ih =>
    have he (ctx : Context) (first : Pipe) : (concatRest first).Enters ctx
        (.concat phase true first) := fun _ _ _ _ => step_concat_rest h
    exact (concatRest_sifted hp.1).follows rest (he ctx first) (he _ first.sift) rfl id
      (Nat.add_comm ..) hs (ih hp.2 scope hs)

end Pipelines

end TripleQuery
