import TripleQuery.Proofs.Pipe.Step
import TripleQuery.Proofs.Solutions.Basic

/-!
# What pipelines consist of

An `Allowance` says what may occur in a pipeline: which extensions in the operators that are yet to
be compiled, which failures, and which trackers. What an operator compiles to is within the
allowance if realizations are (`compile_within`). A pipeline that is within it takes steps that fail
only as allowed and are heard by allowed trackers only, and it stays within it
(`Pipe.step_stays_within`).
-/

namespace TripleQuery

/-! ## Extensions -/

/-- The extensions in an operator tree, at any depth, from left to right. -/
def Op.extensions : Op → List Extension
  | .extension ext => [ext]
  | .bgp _ | .quadPattern .. | .datasetNames _ | .table _ => []
  | .join l r | .leftJoin l r _ | .union l r => l.extensions ++ r.extensions
  | .filter _ s | .graph _ s | .order _ s | .project _ s | .distinct s | .slice _ _ s =>
    s.extensions

theorem Op.Plain.extensions {op : Op} (h : op.Plain) : op.extensions = [] := by
  induction op with
  | bgp | quadPattern | datasetNames | table => rfl
  | extension => cases h
  | join l r ihl ihr | leftJoin l r _ ihl ihr | union l r ihl ihr =>
    rw [Op.extensions, ihl h.1, ihr h.2]
    rfl
  | filter _ _ ih | graph _ _ ih | order _ _ ih | project _ _ ih | distinct _ ih
  | slice _ _ _ ih => exact ih h

/-! ## Allowances -/

/-- What may occur in a pipeline. What stages fail with by themselves always may. -/
structure Allowance where
  extension : Extension → Prop
  failure : ExecError → Prop
  tracker : String → Prop
  dataset (e : DatasetError) : failure (.dataset e)
  cancelled : failure .cancelled
  tooLarge (actual limit : Nat) : failure (.tooLarge actual limit)

namespace Allowance

variable (a : Allowance)

/-- Operators with allowed extensions. -/
def operator (op : Op) : Prop := ∀ ext ∈ op.extensions, a.extension ext

/-- Signals other than a failure that is not allowed. -/
def signal : Signal → Prop
  | .fail e => a.failure e
  | .yield _ | .skip | .await | .done => True

/-- Events other than calls of trackers that are not allowed. -/
def event : Event → Prop
  | .pulled id | .closed id => a.tracker id
  | .scan _ | .listing | .evaluate .. | .test .. | .realized .. | .released => True

/-- What a scope has to report, if it has, is allowed. -/
def scope (shared : SharedRows) : Prop := ∀ e, shared.fault = some e → a.failure e

variable {a}

theorem event_of_inquiry {e : Event} (h : e.isInquiry = true) : a.event e := by
  cases e with
  | pulled | closed => cases h
  | _ => trivial

theorem scope_clear (shared : SharedRows) : a.scope shared.clear := nofun

theorem scope_absorb {shared : SharedRows} (h : a.scope shared) {signal : Signal}
    (hs : a.signal signal) : a.scope (shared.absorb signal) := by
  cases signal with
  | yield row =>
    intro e he
    unfold SharedRows.absorb SharedRows.keep at he
    dsimp only at he
    split at he
    · cases he
      exact a.tooLarge _ _
    · cases he
  | fail e =>
    intro e' he
    cases he
    exact hs
  | done | skip | await => exact h

end Allowance

/-- The pipeline consists of what is allowed. -/
def Pipe.Within (a : Allowance) : Pipe → Prop
  | bindings .. | replay .. | concatEnd _ => True
  | script _ items => ∀ e, ScriptItem.fail e ∈ items → a.failure e
  | tracked id _ input => a.tracker id ∧ input.Within a
  | share shared input body => a.scope shared ∧ input.Within a ∧ body.Within a
  | scan _ _ _ _ input | filter _ _ input | names _ _ _ _ input | table _ _ _ input
  | order _ _ _ input | project _ _ input | distinct _ _ _ input | slice _ _ _ input =>
    input.Within a
  | optional _ right _ _ input => a.operator right ∧ input.Within a
  | graphs _ _ sub _ _ input => a.operator sub ∧ input.Within a
  | join _ _ _ _ left right => left.Within a ∧ right.Within a
  | probing right _ _ _ _ probe input => a.operator right ∧ probe.Within a ∧ input.Within a
  | within _ sub _ _ _ inner input => a.operator sub ∧ inner.Within a ∧ input.Within a
  | concat _ _ first rest => first.Within a ∧ rest.Within a

section Within

variable {a : Allowance}

/-! ## Closing -/

theorem SharedRows.settle_within {shared : SharedRows} {input : Pipe}
    (close : Unit → Pipe × List Event) (hs : a.scope shared) (hi : input.Within a)
    (hclose : (close ()).1.Within a ∧ ∀ e ∈ (close ()).2, a.event e) {events : List Event}
    (he : ∀ e ∈ events, a.event e) :
    a.scope (shared.settle input close events).1 ∧
      (shared.settle input close events).2.1.Within a ∧
      ∀ e ∈ (shared.settle input close events).2.2, a.event e := by
  induction events generalizing shared input with
  | nil => exact ⟨hs, hi, he⟩
  | cons e rest ih =>
    obtain ⟨hhead, hrest⟩ := List.forall_mem_cons.1 he
    rw [settle]
    split
    · split
      · have hs₀ : a.scope { shared with openReaders := 0, rows := #[] } := hs
        obtain ⟨hs', hi', he'⟩ := ih hs₀ hclose.1 hrest
        exact ⟨hs', hi', List.forall_mem_append.2 ⟨hclose.2, he'⟩⟩
      · exact ih hs hi hrest
    · obtain ⟨hs', hi', he'⟩ := ih hs hi hrest
      exact ⟨hs', hi', List.forall_mem_cons.2 ⟨hhead, he'⟩⟩

/-- A pipeline stays within an allowance when it is closed. -/
theorem Pipe.Within.close {p : Pipe} (h : p.Within a) :
    p.close.1.Within a ∧ ∀ e ∈ p.close.2, a.event e := by
  induction p with
  | bindings | concatEnd => exact ⟨trivial, List.forall_mem_nil _⟩
  | script => exact ⟨h, List.forall_mem_nil _⟩
  | replay phase position =>
    refine ⟨trivial, ?_⟩
    show ∀ e ∈ (if phase.isClosed then [] else [Event.released]), a.event e
    split
    · exact List.forall_mem_nil _
    · exact List.forall_mem_singleton.2 trivial
  | tracked id _ input ih =>
    obtain ⟨hc, he⟩ := ih h.2
    exact ⟨⟨h.1, hc⟩, List.forall_mem_cons.2 ⟨h.1, he⟩⟩
  | share shared input body ihi ihb =>
    obtain ⟨hs, hi, hb⟩ := h
    obtain ⟨hs', hi', he'⟩ :=
      SharedRows.settle_within (fun _ => input.close) hs hi (ihi hi) (ihb hb).2
    exact ⟨⟨hs', hi', (ihb hb).1⟩, he'⟩
  | scan _ _ _ _ _ ih | filter _ _ _ ih | names _ _ _ _ _ ih | table _ _ _ _ ih
  | order _ _ _ _ ih | project _ _ _ ih | distinct _ _ _ _ ih | slice _ _ _ _ ih => exact ih h
  | optional _ _ _ _ _ ih | graphs _ _ _ _ _ _ ih => exact ⟨⟨h.1, (ih h.2).1⟩, (ih h.2).2⟩
  | join _ _ _ _ _ _ ihl ihr | concat _ _ _ _ ihl ihr =>
    obtain ⟨hl, hle⟩ := ihl h.1
    obtain ⟨hr, hre⟩ := ihr h.2
    exact ⟨⟨hl, hr⟩, List.forall_mem_append.2 ⟨hle, hre⟩⟩
  | probing _ _ _ _ _ _ _ ihp ihi | within _ _ _ _ _ _ _ ihp ihi =>
    obtain ⟨hsub, hp, hi⟩ := h
    exact ⟨⟨hsub, (ihi hi).1⟩, List.forall_mem_append.2 ⟨(ihi hi).2, (ihp hp).2⟩⟩

/-! ## Compiling -/

/-- The pipeline, or the failure, and the events are allowed. -/
structure Compiled.Within (a : Allowance) (c : Compiled) : Prop where
  ok : ∀ p, c.result = .ok p → p.Within a
  error : ∀ e, c.result = .error e → a.failure e
  events : ∀ e ∈ c.events, a.event e

/-- Realizations of allowed extensions are within the allowance if their seeds are. -/
def Allowance.Realized (a : Allowance) (ctx : Context) : Prop :=
  ∀ ext, a.extension ext → ∀ (g : ActiveGraph) (seed : Seed), seed.toPipe.Within a →
    ((ctx.inGraph g).realize ext seed).Within a

namespace Compiled.Within

variable {c : Compiled} {p : Pipe}

theorem of_ok (h : p.Within a) : (Compiled.ok p).Within a where
  ok q hq := by
    cases hq
    exact h
  error _ he := by cases he
  events := List.forall_mem_nil _

theorem after (h : c.Within a) {events : List Event} (he : ∀ e ∈ events, a.event e) :
    (c.after events).Within a :=
  ⟨h.ok, h.error, List.forall_mem_append.2 ⟨he, h.events⟩⟩

theorem bind {next : Pipe → Compiled} (h : c.Within a)
    (hnext : ∀ p, p.Within a → (next p).Within a) : (c.bind next).Within a := by
  unfold Compiled.bind
  split
  · next p hp => exact (hnext p (h.ok p hp)).after h.events
  · exact h

theorem map {f : Pipe → Pipe} (h : c.Within a) (hf : ∀ p, p.Within a → (f p).Within a) :
    (c.map f).Within a := by
  obtain ⟨result, events⟩ := c
  cases result with
  | error e => exact ⟨fun q hq => (nomatch hq), h.error, h.events⟩
  | ok p =>
    refine ⟨fun q hq => ?_, fun e he => (nomatch he), h.events⟩
    cases hq
    exact hf p (h.ok p rfl)

theorem orClose {waiting : Pipe} (h : c.Within a) (hw : waiting.Within a) :
    (c.orClose waiting).Within a := by
  unfold Compiled.orClose
  split
  · exact h
  · next e he =>
    refine ⟨fun q hq => (nomatch hq), fun e' he' => ?_, ?_⟩
    · cases he'
      exact h.error e he
    · exact List.forall_mem_append.2 ⟨h.events, hw.close.2⟩

end Compiled.Within

theorem Seed.close_within (seed : Seed) (h : seed.toPipe.Within a) :
    ∀ e ∈ seed.close, a.event e := by
  cases seed with
  | identity => exact List.forall_mem_nil _
  | input p => exact h.close.2

theorem Seed.through_within {seed : Seed} (h : seed.toPipe.Within a) (seedable : Bool)
    {build : Seed → Compiled} (hbuild : ∀ seed, seed.toPipe.Within a → (build seed).Within a) :
    (seed.through seedable build).Within a := by
  cases seedable with
  | true => exact hbuild seed h
  | false =>
    have hown : (build .identity).Within a := hbuild .identity trivial
    cases seed with
    | identity => exact hown
    | input p => exact (hown.map (f := .joining .inner none p) fun _ hq => ⟨h, hq⟩).orClose h

/-- A scope over what is within an allowance. -/
theorem share_within {input : Pipe} (hi : input.Within a) (limit : Nat) (body : Compiled)
    (hbody : body.Within a) {shared' : SharedRows} {input' : Pipe} {events : List Event}
    (hsettle : (SharedRows.forTwo limit).settle input (fun _ => input.close) body.events =
      (shared', input', events)) :
    Compiled.Within a ⟨body.result.map (.share shared' input'), events⟩ := by
  have hnone : a.scope (.forTwo limit) := nofun
  obtain ⟨hs, hi', hevents⟩ :=
    SharedRows.settle_within (fun _ => input.close) hnone hi hi.close hbody.events
  rw [hsettle] at hs hi' hevents
  obtain ⟨result, before⟩ := body
  cases result with
  | error e => exact ⟨fun q hq => (nomatch hq), hbody.error, hevents⟩
  | ok q =>
    refine ⟨fun p hp => ?_, fun e he => (nomatch he), hevents⟩
    cases hp
    exact ⟨hs, hi', hbody.ok q rfl⟩

theorem Compiled.Within.branches {c : Compiled} {l : Pipe} (h : c.Within a) (hl : l.Within a) :
    ((c.map fun r => .concatAll [l, r]).orClose l).Within a :=
  (h.map (f := fun r => .concatAll [l, r]) fun _ hr => ⟨hl, hr, trivial⟩).orClose hl

theorem unite_within {seed : Seed} (h : seed.toPipe.Within a) (limit : Nat)
    {left right : Seed → Compiled} (hl : ∀ seed : Seed, seed.toPipe.Within a → (left seed).Within a)
    (hr : ∀ seed : Seed, seed.toPipe.Within a → (right seed).Within a) :
    (unite limit left right seed).Within a := by
  cases seed with
  | identity => exact (hl .identity trivial).bind fun l hlw => (hr .identity trivial).branches hlw
  | input p =>
    let reader : Seed := .input (.replay .created 0)
    have hfirst : (left reader).Within a := hl reader trivial
    have hsecond : (right reader).Within a := hr reader trivial
    show (shareBetween p limit left right).Within a
    unfold shareBetween
    dsimp only
    cases hresult : (left reader).result with
    | error e =>
      refine share_within h limit ⟨.error e, (left reader).events ++ reader.close⟩ ?_ rfl
      refine ⟨fun q hq => (nomatch hq), fun e' he => ?_, ?_⟩
      · cases he
        exact hfirst.error e hresult
      · exact List.forall_mem_append.2 ⟨hfirst.events, reader.close_within trivial⟩
    | ok l =>
      refine share_within h limit ((((right reader).map fun r =>
        .concatAll [l, r]).orClose l).after (left reader).events) ?_ rfl
      exact (hsecond.branches (hfirst.ok l hresult)).after hfirst.events

theorem scanChain_within (slot : GraphSlot) (patterns : List TriplePattern) :
    ∀ (condition : Option Expr) (bound : List Variable) {p : Pipe}, p.Within a →
      (scanChain slot condition bound patterns p).Within a := by
  induction patterns with
  | nil =>
    intro condition bound p hp
    cases condition <;> exact hp
  | cons pattern patterns ih =>
    intro condition bound p hp
    cases condition with
    | none => exact ih none _ hp
    | some e =>
      rw [scanChain]
      split
      · exact ih none _ hp
      · exact ih (some e) _ hp

theorem compileFilter_within {e : Expr} {sub : Op} {ctx : Context} {build : Seed → Compiled}
    {seed : Seed} (hbuild : (build seed).Within a) (h : seed.toPipe.Within a) :
    (compileFilter e sub ctx build seed).Within a := by
  unfold compileFilter
  split
  · exact .of_ok (scanChain_within _ _ _ _ h)
  · exact hbuild.map fun _ hq => hq

/-- **Compiling keeps within an allowance.** -/
theorem compile_within {op : Op} (hop : a.operator op) {ctx : Context} (hctx : a.Realized ctx)
    (g : ActiveGraph) (seed : Seed) (h : seed.toPipe.Within a) :
    (compile op (ctx.inGraph g) seed).Within a := by
  induction op generalizing g seed with
  | bgp | quadPattern => exact .of_ok (scanChain_within _ _ _ _ h)
  | datasetNames | table => exact .of_ok h
  | extension ext => exact hctx ext (hop ext List.mem_cons_self) g seed h
  | join l r ihl ihr =>
    obtain ⟨hl, hr⟩ := List.forall_mem_append.1 hop
    exact (ihl hl g seed h).bind fun p hp => ihr hr g (.input p) hp
  | leftJoin l r condition ihl ihr =>
    obtain ⟨hl, hr⟩ := List.forall_mem_append.1 hop
    refine Seed.through_within h _ fun seed h => (ihl hl g seed h).bind fun p hp => ?_
    split
    · exact .of_ok ⟨hr, hp⟩
    · have hright := ihr hr g .identity trivial
      exact (hright.map (f := .joining .left condition p) fun _ hq => ⟨hp, hq⟩).orClose hp
  | union l r ihl ihr =>
    obtain ⟨hl, hr⟩ := List.forall_mem_append.1 hop
    exact unite_within h ctx.maxRows (ihl hl g) (ihr hr g)
  | filter e sub ih =>
    exact Seed.through_within h _ fun seed h => compileFilter_within (ih hop g seed h) h
  | graph name sub ih =>
    cases name with
    | term name => exact ih hop (.named name) seed h
    | var v => exact .of_ok ⟨hop, h⟩
  | order keys sub ih | project keys sub ih | distinct sub ih | slice _ _ sub ih =>
    exact Seed.through_within h _ fun seed h => (ih hop g seed h).map fun _ hq => hq

/-! ## Steps -/

/-- The signal and the events are allowed, and the pipeline afterwards consists of what is. -/
structure Step.Within (a : Allowance) (s : Step) : Prop where
  signal : a.signal s.signal
  pipe : s.pipe.Within a
  events : ∀ e ∈ s.events, a.event e

namespace Step.Within

variable {s : Step}

theorem quiet {signal : Signal} {p : Pipe} {state : RunState} (hs : a.signal signal)
    (hp : p.Within a) : (Step.quiet signal p state).Within a :=
  ⟨hs, hp, List.forall_mem_nil _⟩

/-- A step that asks the dataset or evaluates something. -/
theorem inquiring {signal : Signal} {p : Pipe} {events : List Event} {state : RunState}
    (hs : a.signal signal) (hp : p.Within a) (he : ∀ e ∈ events, e.isInquiry = true) :
    Step.Within a ⟨signal, p, events, state⟩ :=
  ⟨hs, hp, fun e h => Allowance.event_of_inquiry (he e h)⟩

theorem after (h : s.Within a) {events : List Event} (he : ∀ e ∈ events, a.event e) :
    (s.after events).Within a :=
  ⟨h.signal, h.pipe, List.forall_mem_append.2 ⟨he, h.events⟩⟩

theorem finish {ended : Pipe → Pipe} {input : Pipe} {state : RunState} (hi : input.Within a)
    (hended : (ended input.close.1).Within a) : (Step.finish ended input state).Within a :=
  ⟨trivial, hended, hi.close.2⟩

theorem feedOr {hold drop : Pipe → Pipe} {onRow : Binding → Pipe → RunState → Step}
    {onEnd : Pipe → RunState → Step} (h : s.Within a)
    (hhold : ∀ q, q.Within a → (hold q).Within a) (hdrop : ∀ q, q.Within a → (drop q).Within a)
    (hrow : ∀ b q state, q.Within a → (onRow b q state).Within a)
    (hend : ∀ q state, q.Within a → (onEnd q state).Within a) :
    (s.feedOr hold drop onRow onEnd).Within a := by
  obtain ⟨signal, p, events, state⟩ := s
  obtain ⟨hs, hp, he⟩ := h
  cases signal with
  | yield b => exact (hrow b p state hp).after he
  | done => exact (hend p state hp).after he
  | fail e => exact ⟨hs, hdrop p hp, he⟩
  | skip | await => exact ⟨trivial, hhold p hp, he⟩

end Step.Within

/-! ### Scans and graphs -/

section Stages

variable {ctx : Context} {s : Step} {input left right : Pipe} {state : RunState}

theorem openScan_failure {r : ScanRequest} {e : ExecError} {state' : RunState}
    (h : ctx.openScan r state = (.error e, state')) : a.failure e := by
  unfold Context.openScan at h
  dsimp only at h
  cases hresult : (ctx.dataset.scan state.scans r).result with
  | ok items =>
    rw [hresult] at h
    cases h
  | error e' =>
    rw [hresult] at h
    cases h
    exact a.dataset e'

theorem loadNames_failure {known : Option (List Term)} {e : ExecError} {events : List Event}
    {state' : RunState} (h : ctx.loadNames known state = (.error e, events, state')) :
    a.failure e := by
  cases known with
  | some names => cases h
  | none =>
    unfold Context.loadNames at h
    dsimp only at h
    cases hresult : (ctx.dataset.graphNames state.listings).result with
    | ok names =>
      rw [hresult] at h
      cases h
    | error e' =>
      rw [hresult] at h
      cases h
      exact a.dataset e'

theorem loadNames_inquires (ctx : Context) (known : Option (List Term)) (state : RunState) :
    ∀ e ∈ (ctx.loadNames known state).2.1, e.isInquiry = true := by
  cases known with
  | some names => exact List.forall_mem_nil _
  | none => exact List.forall_mem_singleton.2 rfl

theorem scanStep_within {pattern : TriplePattern} {slot : GraphSlot} (h : s.Within a) :
    (scanStep ctx pattern slot s).Within a := by
  refine h.feedOr (fun _ hq => hq) (fun _ hq => hq) (fun row q state hq => ?_)
    fun _ _ hq => .finish hq hq.close.1
  unfold scanRow
  dsimp only
  split
  · exact .inquiring trivial hq (List.forall_mem_singleton.2 rfl)
  · next hscan =>
    exact .inquiring (openScan_failure hscan) hq (List.forall_mem_singleton.2 rfl)

theorem scanItem_within {pattern : TriplePattern} {slot : GraphSlot} {row : Binding}
    {items : List CursorItem} (hi : input.Within a) :
    (scanItem ctx pattern slot row items input state).Within a := by
  unfold scanItem
  split
  · exact .quiet trivial hi
  · next q rest =>
    refine .quiet ?_ hi
    cases bindQuad pattern slot row q <;> trivial
  · exact .quiet (a.dataset _) hi
  · exact .quiet trivial hi

theorem namesStep_within {name : TermPattern} {known : Option (List Term)} (h : s.Within a) :
    (namesStep ctx name known s).Within a := by
  refine h.feedOr (fun _ hq => hq) (fun _ hq => hq) (fun row q state hq => ?_)
    fun _ _ hq => .finish hq hq.close.1
  have hasked := loadNames_inquires ctx known state
  unfold namesRow
  split <;> rename_i hload <;> rw [hload] at hasked
  · exact .inquiring trivial hq hasked
  · exact .inquiring (loadNames_failure hload) hq hasked

variable {sub : Op} (hsub : a.operator sub)

include hsub

theorem graphsStep_within {var : Variable} {known : Option (List Term)} (h : s.Within a) :
    (graphsStep ctx var sub known s).Within a := by
  refine h.feedOr (fun _ hq => ⟨hsub, hq⟩) (fun _ hq => ⟨hsub, hq⟩) (fun row q state hq => ?_)
    fun _ _ hq => .finish hq ⟨hsub, hq.close.1⟩
  have hasked := loadNames_inquires ctx known state
  unfold graphsRow
  split <;> rename_i hload <;> rw [hload] at hasked
  · exact .inquiring trivial ⟨hsub, hq⟩ hasked
  · exact .inquiring (loadNames_failure hload) ⟨hsub, hq⟩ hasked

theorem graphsTry_within (hctx : a.Realized ctx) {var : Variable} {known : Option (List Term)}
    {row : Binding} {candidates : List Term} (hi : input.Within a) :
    (graphsTry ctx var sub known row candidates input state).Within a := by
  unfold graphsTry
  split
  · exact .quiet trivial ⟨hsub, hi⟩
  · next name candidates =>
    dsimp only
    split
    · exact .quiet trivial ⟨hsub, hi⟩
    · next seed _ =>
      have hcompiled := compile_within hsub hctx (.named name) (.input (.single seed)) trivial
      split
      · next inner hresult =>
        exact ⟨trivial, ⟨hsub, hcompiled.ok inner hresult, hi⟩, hcompiled.events⟩
      · next e hresult => exact ⟨hcompiled.error e hresult, ⟨hsub, hi⟩, hcompiled.events⟩

theorem withinStep_within {var : Variable} {known : Option (List Term)} {row : Binding}
    {candidates : List Term} (hi : input.Within a) (h : s.Within a) :
    (withinStep var sub known row candidates input s).Within a := by
  unfold withinStep Step.feed
  exact h.feedOr (fun _ hq => ⟨hsub, hq, hi⟩) (fun _ hq => ⟨hsub, hq, hi⟩)
    (fun _ _ _ hq => .quiet trivial ⟨hsub, hq, hi⟩)
    fun _ _ hq => ⟨trivial, ⟨hsub, hi⟩, hq.close.2⟩

/-! ### Joins -/

theorem optionalStep_within (hctx : a.Realized ctx) {condition : Option Expr} {g : ActiveGraph}
    (h : s.Within a) : (optionalStep ctx sub condition g s).Within a := by
  refine h.feedOr (fun _ hq => ⟨hsub, hq⟩) (fun _ hq => ⟨hsub, hq⟩) (fun row q state hq => ?_)
    fun _ _ hq => .finish hq ⟨hsub, hq.close.1⟩
  have hcompiled := compile_within hsub hctx g (.input (.single row)) trivial
  unfold optionalRow
  dsimp only
  split
  · next probe hresult =>
    exact ⟨trivial, ⟨hsub, hcompiled.ok probe hresult, hq⟩, hcompiled.events⟩
  · next e hresult => exact ⟨hcompiled.error e hresult, ⟨hsub, hq⟩, hcompiled.events⟩

omit hsub in
theorem testEvents_inquire (condition : Option Expr) (b : Binding) :
    ∀ e ∈ testEvents condition b, e.isInquiry = true := by
  cases condition with
  | none => exact List.forall_mem_nil _
  | some c => exact List.forall_mem_singleton.2 rfl

theorem probeStep_within {condition : Option Expr} {g : ActiveGraph} {row : Binding}
    {matched : Bool} (hi : input.Within a) (h : s.Within a) :
    (probeStep sub condition g row matched input s).Within a := by
  unfold probeStep Step.feed
  refine h.feedOr (fun _ hq => ⟨hsub, hq, hi⟩) (fun _ hq => ⟨hsub, hq, hi⟩)
    (fun b q state hq => ?_) fun q state hq => ⟨?_, ⟨hsub, hi⟩, hq.close.2⟩
  · unfold probeRow
    split <;> exact .inquiring trivial ⟨hsub, hq, hi⟩ (testEvents_inquire condition b)
  · unfold probeEnd
    cases matched <;> trivial

omit hsub

variable {kind : JoinKind} {condition : Option Expr}

theorem joinFinish_within (hl : left.Within a) (hr : right.Within a) :
    (joinFinish kind condition left right state).Within a :=
  ⟨trivial, ⟨hl.close.1, hr.close.1⟩, List.forall_mem_append.2 ⟨hl.close.2, hr.close.2⟩⟩

theorem joinRightStep_within {rows : Array Binding} (hl : left.Within a) (h : s.Within a) :
    (joinRightStep ctx kind condition rows left s).Within a := by
  refine h.feedOr (fun _ hq => ⟨hl, hq⟩) (fun _ hq => ⟨hl, hq⟩) (fun row q state hq => ?_)
    fun q state hq => ?_
  · refine .quiet ?_ ⟨hl, hq⟩
    split
    · exact a.tooLarge _ _
    · trivial
  · refine Step.Within.after ?_ hq.close.2
    split
    · exact joinFinish_within hl hq.close.1
    · exact .quiet trivial ⟨hl, hq.close.1⟩

theorem joinLeftStep_within {rows : List Binding} (hr : right.Within a) (h : s.Within a) :
    (joinLeftStep kind condition rows right s).Within a := by
  unfold joinLeftStep Step.feed
  exact h.feedOr (fun _ hq => ⟨hq, hr⟩) (fun _ hq => ⟨hq, hr⟩)
    (fun _ _ _ hq => .quiet trivial ⟨hq, hr⟩) fun _ _ hq => joinFinish_within hq hr

theorem joinTry_within {rows : List Binding} {row : Binding} {untried : List Binding}
    {matched : Bool} (hl : left.Within a) (hr : right.Within a) :
    (joinTry kind condition rows row untried matched left right state).Within a := by
  unfold joinTry
  split
  · refine .quiet ?_ ⟨hl, hr⟩
    split <;> trivial
  · dsimp only
    split
    · exact .quiet trivial ⟨hl, hr⟩
    · split <;> exact .inquiring trivial ⟨hl, hr⟩ (testEvents_inquire condition _)

/-! ### Stages with one input -/

theorem filterStep_within {e : Expr} (h : s.Within a) : (filterStep ctx e s).Within a := by
  refine h.feedOr (fun _ hq => hq) (fun _ hq => hq) (fun row q state hq => ?_)
    fun _ _ hq => .finish hq hq.close.1
  unfold filterRow
  split <;> exact .inquiring trivial hq (List.forall_mem_singleton.2 rfl)

theorem projectStep_within {vars : List Variable} (h : s.Within a) :
    (projectStep vars s).Within a := by
  unfold projectStep Step.feed
  exact h.feedOr (fun _ hq => hq) (fun _ hq => hq) (fun _ _ _ hq => .quiet trivial hq)
    fun _ _ hq => .finish hq hq.close.1

theorem tableStep_within {rows : List Binding} (h : s.Within a) : (tableStep rows s).Within a := by
  unfold tableStep Step.feed
  exact h.feedOr (fun _ hq => hq) (fun _ hq => hq) (fun _ _ _ hq => .quiet trivial hq)
    fun _ _ hq => .finish hq hq.close.1

theorem tableTry_within {rows : List Binding} {row : Binding} {untried : List Binding}
    (hi : input.Within a) : (tableTry rows row untried input state).Within a := by
  unfold tableTry
  split
  · exact .quiet trivial hi
  · next other untried =>
    refine .quiet ?_ hi
    cases (row.merge other).toOption <;> trivial

theorem sliceStep_within {skip : Nat} {remaining : Option Nat} (h : s.Within a) :
    (sliceStep skip remaining s).Within a := by
  refine h.feedOr (fun _ hq => hq) (fun _ hq => hq) (fun row q state hq => ?_)
    fun _ _ hq => .finish hq hq.close.1
  unfold sliceRow
  split
  · exact .quiet trivial hq
  · split
    · exact ⟨trivial, hq.close.1, hq.close.2⟩
    · exact .quiet trivial hq
  · exact .quiet trivial hq

theorem distinctStep_within {seen : List Binding} {limit : Nat} (h : s.Within a) :
    (distinctStep seen limit s).Within a := by
  refine h.feedOr (fun _ hq => hq) (fun _ hq => hq) (fun row q state hq => ?_)
    fun _ _ hq => .finish hq hq.close.1
  unfold distinctRow
  split
  · exact .quiet trivial hq
  · refine .quiet ?_ hq
    split
    · exact a.tooLarge _ _
    · trivial

theorem orderStep_within {keys : List SortKey} {keyed : Array (List (Option Term) × Binding)}
    (h : s.Within a) : (orderStep ctx keys keyed s).Within a := by
  refine h.feedOr (fun _ hq => hq) (fun _ hq => hq) (fun row q state hq => ?_)
    fun q state hq => ⟨trivial, hq.close.1, hq.close.2⟩
  have hevaluates : ∀ e ∈ keys.map (fun k => Event.evaluate k.expr row), e.isInquiry = true := by
    intro e he
    obtain ⟨k, -, rfl⟩ := List.mem_map.1 he
    rfl
  unfold orderRow
  cases hc : state.cancelled with
  | true =>
    rw [RunState.checkCancelled_of_cancelled hc]
    exact .quiet a.cancelled hq
  | false =>
    rw [RunState.checkCancelled_of_running hc]
    dsimp only
    split
    · exact .inquiring (a.tooLarge _ _) hq hevaluates
    · exact .inquiring trivial hq hevaluates

theorem concatFirstStep_within (hr : right.Within a) (h : s.Within a) :
    (concatFirstStep right s).Within a := by
  unfold concatFirstStep Step.feed
  exact h.feedOr (fun _ hq => ⟨hq, hr⟩) (fun _ hq => ⟨hq, hr⟩)
    (fun _ _ _ hq => .quiet trivial ⟨hq, hr⟩)
    fun _ _ hq => ⟨trivial, ⟨hq.close.1, hr⟩, hq.close.2⟩

theorem concatRestStep_within (hl : left.Within a) (h : s.Within a) :
    (concatRestStep left s).Within a := by
  unfold concatRestStep Step.feed
  exact h.feedOr (fun _ hq => ⟨hl, hq⟩) (fun _ hq => ⟨hl, hq⟩)
    (fun _ _ _ hq => .quiet trivial ⟨hl, hq⟩) fun _ _ hq => .quiet trivial ⟨hl, hq⟩

/-! ### Scopes -/

theorem replayStep_within {scope : Option SharedRows} (h : ∀ shared ∈ scope, a.scope shared)
    {phase : Phase} {position : Nat} : (replayStep scope phase position state).Within a := by
  unfold replayStep
  split
  · exact .quiet trivial trivial
  · next shared =>
    split
    · next e hfault => exact .quiet (h shared rfl e hfault) trivial
    · split
      · exact .quiet trivial trivial
      · split <;> exact .quiet trivial trivial

variable {shared : SharedRows}

theorem shareSettle_within (hi : input.Within a) (h : s.Within a) :
    (shareSettle shared input s).Within a := by
  obtain ⟨hs, hi', he⟩ := SharedRows.settle_within (fun _ => input.close)
    (Allowance.scope_clear shared) hi hi.close h.events
  refine ⟨?_, ⟨hs, hi', h.pipe⟩, he⟩
  unfold shareSettle
  dsimp only
  split
  · trivial
  · exact h.signal

theorem shareRead_within (hs : a.scope shared) {body : Pipe} (hb : body.Within a)
    {events : List Event} (he : ∀ e ∈ events, a.event e) (h : s.Within a) :
    (shareRead shared body events s).Within a := by
  refine ⟨?_, ⟨Allowance.scope_absorb hs h.signal, h.pipe, hb⟩,
    List.forall_mem_append.2 ⟨he, h.events⟩⟩
  unfold shareRead
  dsimp only
  split <;> trivial

end Stages

/-! ### All stages -/

theorem Pipe.AtHand.within {state : RunState} {p q : Pipe} {signal : Signal}
    (h : AtHand state p signal q) (hp : p.Within a) : (Step.quiet signal q state).Within a := by
  cases h with
  | spent | names_cons | order_nil | order_cons => exact .quiet trivial hp
  | bindings_nil | bindings_cons | concatEnd => exact .quiet trivial trivial
  | script_nil => exact .quiet trivial hp
  | script_row => exact .quiet trivial fun e he => hp e (List.mem_cons_of_mem _ he)
  | script_fail =>
    exact .quiet (hp _ List.mem_cons_self) fun e he => hp e (List.mem_cons_of_mem _ he)
  | scan_cancelled | graphs_cancelled => exact .quiet a.cancelled hp

/-- **Steps keep within an allowance.** -/
theorem Pipe.step_stays_within {ctx : Context} (hctx : a.Realized ctx) {p : Pipe} (hp : p.Within a)
    (scope : Option SharedRows) (hscope : ∀ shared ∈ scope, a.scope shared) (state : RunState) :
    (p.step ctx scope state).Within a := by
  induction p, state using step_induction generalizing scope with
  | at_hand h =>
    rw [h.step_eq]
    exact h.within hp
  | @tracked _ calling _ _ ih =>
    have hs := ih hp.2 scope hscope
    rw [step_tracked]
    refine ⟨hs.signal, ⟨hp.1, hs.pipe⟩, ?_⟩
    cases calling with
    | true => exact hs.events
    | false => exact List.forall_mem_cons.2 ⟨hp.1, hs.events⟩
  | replay hd =>
    rw [step_replay hd]
    exact replayStep_within hscope
  | @share shared _ _ _ ihi ihb =>
    obtain ⟨hs, hi, hb⟩ := hp
    have hbody := ihb hb (some shared) fun _ h => Option.some.inj h ▸ hs
    rw [step_share]
    split
    · exact shareSettle_within hi hbody
    · split
      · exact shareRead_within (Allowance.scope_clear shared) hbody.pipe hbody.events
          (ihi _ hi scope hscope)
      · exact ⟨hbody.signal, ⟨Allowance.scope_clear shared, hi, hbody.pipe⟩, hbody.events⟩
  | scan_reading hd =>
    rw [step_scan_reading hd]
    exact scanItem_within hp
  | scan hd ha ih =>
    rw [step_scan hd ha]
    exact scanStep_within (ih hp scope hscope)
  | filter hd ih =>
    rw [step_filter hd]
    exact filterStep_within (ih hp scope hscope)
  | join_gathering hd ih =>
    rw [step_join_gathering hd]
    exact joinRightStep_within hp.1 (ih hp.2 scope hscope)
  | join_idle hd ih =>
    rw [step_join_idle hd]
    exact joinLeftStep_within hp.2 (ih hp.1 scope hscope)
  | join_trying hd =>
    rw [step_join_trying hd]
    exact joinTry_within hp.1 hp.2
  | optional hd ih =>
    rw [step_optional hd]
    exact optionalStep_within hp.1 hctx (ih hp.2 scope hscope)
  | probing ih =>
    rw [step_probing]
    exact probeStep_within hp.1 hp.2.2 (ih hp.2.1 scope hscope)
  | graphs_trying hd =>
    rw [step_graphs_trying hd]
    exact graphsTry_within hp.1 hctx hp.2
  | graphs hd ha ih =>
    rw [step_graphs hd ha]
    exact graphsStep_within hp.1 (ih hp.2 scope hscope)
  | within ih =>
    rw [step_within]
    exact withinStep_within hp.1 hp.2.2 (ih hp.2.1 scope hscope)
  | names hd ih =>
    rw [step_names_nil hd]
    exact namesStep_within (ih hp scope hscope)
  | table_nil hd =>
    rw [step_table_nil hd]
    exact .finish hp (Pipe.Within.close hp).1
  | table_trying hd hrows =>
    rw [step_table_trying hd hrows]
    exact tableTry_within hp
  | table_idle hd hrows ih =>
    rw [step_table_idle hd hrows]
    exact tableStep_within (ih hp scope hscope)
  | order hd ih =>
    rw [step_order_gathering hd]
    exact orderStep_within (ih hp scope hscope)
  | project hd ih =>
    rw [step_project hd]
    exact projectStep_within (ih hp scope hscope)
  | distinct hd ih =>
    rw [step_distinct hd]
    exact distinctStep_within (ih hp scope hscope)
  | slice_zero hd =>
    rw [step_slice_zero hd]
    exact .finish hp (Pipe.Within.close hp).1
  | slice hd hzero ih =>
    rw [step_slice hd hzero]
    exact sliceStep_within (ih hp scope hscope)
  | concat_first hd ih =>
    rw [step_concat_first hd]
    exact concatFirstStep_within hp.2 (ih hp.1 scope hscope)
  | concat_rest hd ih =>
    rw [step_concat_rest hd]
    exact concatRestStep_within hp.1 (ih hp.2 scope hscope)

end Within

end TripleQuery
