import TripleQuery.Proofs.Pipe.Compile
import TripleQuery.Proofs.Pipe.Stages

/-!
# Runs of joins and of named graphs

The stages that run several pipelines: a nested loop over a side that is read first, and the two
stages that compile a subtree in the middle of a run, once per row or once per row and graph. A
subtree that is compiled for a single row reads from no scope.
-/

namespace TripleQuery.Runs

variable {ctx : Context} {all : Option Flow} {known : Nat} {phase : Phase} {p : Pipe} {f : Flow}

/-! ## Nested loops -/

section Loops

variable {kind : JoinKind} {condition : Option Expr}

/-- A join as a stage over its right side, behind some rows of it. -/
def joinRight (ctx : Context) (kind : JoinKind) (condition : Option Expr) (left : Pipe)
    (rows : List Binding) : Stage where
  hold := .join .active kind condition (.gathering rows.toArray) left
  drop := .join .active kind condition (.gathering rows.toArray) left
  onRow := joinGather ctx kind condition rows.toArray left
  onEnd := joinGathered kind condition rows.toArray left

theorem joinRight_enters (left : Pipe) (rows : List Binding) (phase : Phase)
    (h : phase.isDone = false) : (joinRight ctx kind condition left rows).Enters ctx
      (.join phase kind condition (.gathering rows.toArray) left) :=
  fun _ _ _ _ => Pipe.step_join_gathering h

/-- A join as a stage over its left side. -/
def joinLeft (kind : JoinKind) (condition : Option Expr) (rows : List Binding) (right : Pipe) :
    Stage where
  hold := fun left => .join .active kind condition (.idle rows) left right
  drop := fun left => .join .active kind condition (.idle rows) left right
  onRow row left :=
    .quiet .skip (.join .active kind condition (.trying rows row rows false) left right)
  onEnd left := joinFinish kind condition left right

theorem joinLeft_enters (rows : List Binding) (right : Pipe) :
    (joinLeft kind condition rows right).Enters ctx
      fun left => .join .active kind condition (.idle rows) left right :=
  fun _ _ _ _ => Pipe.step_join_idle rfl

/-- The right rows are tried one after the other; `matched` remembers whether one has fitted. -/
theorem join_trying (rows : List Binding) (row : Binding) {left right : Pipe}
    (hleft : Runs ctx all known (.join .active kind condition (.idle rows) left right) f)
    (matched : Bool) (untried : List Binding) :
    Runs ctx all known (.join .active kind condition (.trying rows row untried matched) left right)
      (.ofRows (Flow.tryRows kind condition row matched untried) ++ f) := by
  induction untried generalizing matched with
  | nil =>
    unfold Flow.tryRows
    by_cases halone : kind = .left ∧ !matched
    · rw [if_pos halone]
      refine .yield (fun scope state _ hs => ?_) hleft
      rw [Pipe.step_join_trying rfl, joinTry, if_pos halone]
      exact does_quiet hs
    · rw [if_neg halone]
      refine .skip (fun scope state _ hs => ?_) hleft
      rw [Pipe.step_join_trying rfl, joinTry, if_neg halone]
      exact does_quiet hs
  | cons other untried ih =>
    unfold Flow.tryRows
    cases hmerge : row.merge other with
    | error c =>
      refine .skip (fun scope state _ hs => ?_) (ih matched)
      rw [Pipe.step_join_trying rfl, joinTry]
      simp only [hmerge]
      exact does_quiet hs
    | ok merged =>
      by_cases ha : admitsAll condition merged = true
      · simp only [if_pos ha]
        refine .yield (fun scope state _ hs => ?_) (ih true)
        rw [Pipe.step_join_trying rfl, joinTry]
        simp only [hmerge, if_pos ha]
        exact ⟨rfl, rfl, hs⟩
      · simp only [if_neg ha]
        refine .skip (fun scope state _ hs => ?_) (ih matched)
        rw [Pipe.step_join_trying rfl, joinTry]
        simp only [hmerge, if_neg ha]
        exact ⟨rfl, rfl, hs⟩

theorem join_idle (rows : List Binding) (right : Pipe) (hp : Runs ctx all known p f) :
    Runs ctx all known (.join .active kind condition (.idle rows) p right)
      (f.expand fun row => Flow.tryRows kind condition row false rows) :=
  hp.binds (joinLeft kind condition rows right)
    (fun row => .ofRows (Flow.tryRows kind condition row false rows))
    (joinLeft_enters rows right) (joinLeft_enters rows right)
    (fun q => Nat.le_add_right q.readers _)
    (fun row _ _ _ hq => .skip (fun _ hs => does_quiet hs) (join_trying rows row hq false rows))
    (fun _ _ => .done fun _ hs => ⟨rfl, rfl, hs⟩) (joinLeft_enters rows right)

/-- A join gathers one more right row. -/
theorem joinGather_toArray (rows : List Binding) (left : Pipe) (b : Binding) (q : Pipe) :
    joinGather ctx kind condition rows.toArray left b q = .quiet
      (if exceeds (rows.length + 1) ctx.maxRows then
        .fail (.tooLarge (rows.length + 1) ctx.maxRows) else .skip)
      (.join .active kind condition (.gathering (rows ++ [b]).toArray) left q) := by
  unfold joinGather
  rw [List.push_toArray]
  simp only [List.size_toArray, List.length_append, List.length_singleton]

/-- A join of a left side with a right side that it reads first. -/
theorem join {left right : Pipe} {g : Flow} (hl : Gives ctx all left f)
    (hr : Runs ctx all known right g) :
    Runs ctx all known (.joining kind condition left right)
      (f.join ctx.maxRows kind condition g) := by
  refine hr.through (joinRight ctx kind condition left)
    (Flow.gather ctx.maxRows (f.joinWith kind condition))
    (fun rows => joinRight_enters left rows _ rfl) (fun _ q => Nat.le_add_left q.readers _)
    (fun _ _ => rfl) (fun rows b q g known ih => ?_) (fun rows q known => ?_) []
    (joinRight_enters left [] .created rfl)
  · show Continues ctx all known (joinGather ctx kind condition rows.toArray left b q) _
    have hq := ih (rows ++ [b]) _ (joinRight_enters left (rows ++ [b]) .active rfl)
    rw [joinGather_toArray]
    unfold Flow.gather
    by_cases hlimit : exceeds (rows.length + 1) ctx.maxRows = true
    · rw [if_pos hlimit, if_pos hlimit]
      exact .fail fun _ hs => does_quiet hs
    · rw [if_neg hlimit, if_neg hlimit]
      exact .skip (fun _ hs => does_quiet hs) hq
  · show Continues ctx all known (joinGathered kind condition rows.toArray left q)
      (f.joinWith kind condition rows)
    have hempty : rows.toArray.isEmpty = rows.isEmpty := by simp
    unfold Flow.joinWith
    by_cases hinner : kind = .inner ∧ rows.isEmpty = true
    · rw [if_pos hinner]
      refine .done (q := .join .exhausted kind condition (.gathering #[]) left.close.1
        q.close.1.close.1) fun state hs => ?_
      unfold joinGathered
      simp only [hempty, if_pos hinner]
      exact ⟨rfl, rfl, hs⟩
    · rw [if_neg hinner]
      refine .skip (fun state hs => ?_) (join_idle rows q.close.1 (hl known))
      unfold joinGathered
      simp only [hempty, if_neg hinner]
      exact ⟨rfl, rfl, hs⟩

end Loops

/-! ## Probing -/

section Probes

variable {sub : Op} {condition : Option Expr} {g : ActiveGraph}

/-- An optional join by probing as a stage, between left rows. -/
def optionalStage (ctx : Context) (sub : Op) (condition : Option Expr) (g : ActiveGraph) :
    Stage where
  hold := .optional .active sub condition g
  drop := .optional .active sub condition g
  onRow := optionalRow ctx sub condition g
  onEnd := Step.finish (.optional .exhausted sub condition g)

theorem optionalStage_enters (phase : Phase) (h : phase.isDone = false) :
    (optionalStage ctx sub condition g).Enters ctx (.optional phase sub condition g) :=
  fun _ _ _ _ => Pipe.step_optional h

/-- An optional join as a stage over the probe for a left row. -/
def probeStage (sub : Op) (condition : Option Expr) (g : ActiveGraph) (row : Binding)
    (input : Pipe) (matched : Bool) : Stage where
  hold := fun probe => .probing sub condition g row matched probe input
  drop := fun probe => .probing sub condition g row matched probe input
  onRow := probeRow sub condition g row matched input
  onEnd := probeEnd sub condition g row matched input

theorem probeStage_enters (row : Binding) (input : Pipe) (matched : Bool) :
    (probeStage sub condition g row input matched).Enters ctx
      fun probe => .probing sub condition g row matched probe input :=
  fun _ _ _ _ => Pipe.step_probing

theorem probing (row : Binding) {input probe : Pipe} {rest : Flow}
    (hinput : Runs ctx all known (.optional .active sub condition g input) rest)
    (hprobe : Runs ctx none 0 probe f) (hc : probe.Counted) (hr : probe.readers = 0)
    (matched : Bool) :
    Runs ctx all known (.probing sub condition g row matched probe input)
      (f.probe condition row matched ++ rest) := by
  refine hprobe.enclosed (probeStage sub condition g row input)
    (fun matched f => f.probe condition row matched ++ rest)
    (probeStage_enters row input) (fun _ _ => rfl) (fun matched b q f ih => ?_)
    (fun matched q => ?_) hc hr matched (probeStage_enters row input matched)
  · show Continues ctx all known (probeRow sub condition g row matched input b q) _
    have hq (matched : Bool) := ih matched _ (probeStage_enters row input matched)
    unfold probeRow Flow.probe
    by_cases ha : admitsAll condition b = true
    · simp only [if_pos ha]
      exact .yield (fun _ hs => ⟨rfl, rfl, hs⟩) (hq true)
    · simp only [if_neg ha]
      exact .skip (fun _ hs => ⟨rfl, rfl, hs⟩) (hq matched)
  · show Continues ctx all known (probeEnd sub condition g row matched input q) _
    unfold probeEnd Flow.probe
    cases matched with
    | true => exact .skip (fun _ hs => ⟨rfl, rfl, hs⟩) hinput
    | false => exact .yield (fun _ hs => ⟨rfl, rfl, hs⟩) hinput

/-- An optional join that probes its right side, if it is known what that comes to for a row. -/
theorem optional (hsub : sub.Plain) {k : Binding → Flow}
    (hk : ∀ row, Runs ctx none 0 (sub.pipe ctx g (.input (.single row))) (k row))
    (hp : Runs ctx all known p f) (h : phase.isDone = false) :
    Runs ctx all known (.optional phase sub condition g p)
      (f.bind fun row => (k row).probe condition row false) := by
  refine hp.binds (optionalStage ctx sub condition g) _
    (optionalStage_enters _ rfl) (optionalStage_enters .active rfl) (fun _ => Nat.le_refl _)
    (fun row q rest known hq => ?_) (fun _ _ => .done fun _ hs => ⟨rfl, rfl, hs⟩)
    (optionalStage_enters phase h)
  obtain ⟨hc, hr⟩ := Op.pipe_counted hsub ctx g (.input (.single row)) trivial
  refine .skip (fun state hs => ?_) (probing row hq (hk row) hc hr false)
  show Does (optionalRow ctx sub condition g row q state) _ _
  rw [optionalRow_plain hsub]
  exact does_quiet hs

end Probes

/-! ## Named graphs -/

section Graphs

variable {src : Source} {var : Variable} {sub : Op} {names : Option (List Term)}

/-- A stage over graphs, between rows. -/
def graphsStage (ctx : Context) (var : Variable) (sub : Op) (names : Option (List Term)) :
    Stage where
  hold := .graphs .active var sub names .asking
  drop := .graphs .active var sub names .idle
  onRow := graphsRow ctx var sub names
  onEnd := Step.finish (.graphs .exhausted var sub names .idle)

theorem graphsStage_asking (names : Option (List Term)) :
    (graphsStage ctx var sub names).Enters ctx (.graphs .active var sub names .asking) :=
  fun _ _ _ _ => Pipe.step_graphs_asking rfl

theorem graphsStage_idle (names : Option (List Term)) (phase : Phase) (h : phase.isDone = false) :
    (graphsStage ctx var sub names).Enters ctx (.graphs phase var sub names .idle) :=
  fun _ _ _ hs => Pipe.step_graphs h hs

/-- A stage over graphs as a stage over the subtree in one of them. -/
def withinStage (var : Variable) (sub : Op) (names : Option (List Term)) (row : Binding)
    (candidates : List Term) (input : Pipe) : Stage where
  hold := fun inner => .within var sub names row candidates inner input
  drop := fun inner => .within var sub names row candidates inner input
  onRow b inner := .quiet (.yield b) (.within var sub names row candidates inner input)
  onEnd inner state :=
    ⟨.skip, .graphs .active var sub names (.trying row candidates) input, inner.close.2, state⟩

theorem withinStage_enters (row : Binding) (candidates : List Term) (input : Pipe) :
    (withinStage var sub names row candidates input).Enters ctx
      fun inner => .within var sub names row candidates inner input :=
  fun _ _ _ _ => Pipe.step_within

theorem within {row : Binding} {candidates : List Term} {inner input : Pipe} {rest : Flow}
    (hinput : Runs ctx all known (.graphs .active var sub names (.trying row candidates) input)
      rest)
    (hinner : Runs ctx none 0 inner f) (hc : inner.Counted) (hr : inner.readers = 0) :
    Runs ctx all known (.within var sub names row candidates inner input) (f ++ rest) :=
  hinner.enclosed (fun _ : Unit => withinStage var sub names row candidates input)
    (fun _ f => f ++ rest) (fun _ => withinStage_enters row candidates input) (fun _ _ => rfl)
    (fun _ _ _ _ ih => .yield (fun _ hs => does_quiet hs)
      (ih () _ (withinStage_enters row candidates input)))
    (fun _ _ => .skip (fun _ hs => ⟨rfl, rfl, hs⟩) hinput) hc hr ()
    (withinStage_enters row candidates input)

/-- What a stage over graphs makes of a row in a graph. -/
def inGraph (var : Variable) (row : Binding) (k : Term → Binding → Flow) (name : Term) : Flow :=
  match row.extend var name with
  | .ok seed => k name seed
  | .error _ => .done

theorem graphs_trying (hsub : sub.Plain) {k : Term → Binding → Flow}
    (hk : ∀ name seed, Runs ctx none 0 (sub.pipe ctx (.named name) (.input (.single seed)))
      (k name seed))
    (row : Binding) {input : Pipe} {rest : Flow}
    (hinput : Runs ctx all known (.graphs .active var sub names .idle input) rest)
    (candidates : List Term) :
    Runs ctx all known (.graphs .active var sub names (.trying row candidates) input)
      (.overAll candidates (inGraph var row k) ++ rest) := by
  induction candidates with
  | nil =>
    refine .skip (fun scope state _ hs => ?_) hinput
    rw [Pipe.step_graphs_trying rfl]
    exact does_quiet hs
  | cons name candidates ih =>
    rw [Flow.overAll, Flow.append_assoc, inGraph]
    cases hseed : row.extend var name with
    | error c =>
      refine .skip (fun scope state _ hs => ?_) ih
      rw [Pipe.step_graphs_trying rfl, graphsTry_error ctx hseed]
      exact does_quiet hs
    | ok seed =>
      obtain ⟨hc, hr⟩ := Op.pipe_counted hsub ctx (.named name) (.input (.single seed)) trivial
      refine .skip (fun scope state _ hs => ?_) (within ih (hk name seed) hc hr)
      rw [Pipe.step_graphs_trying rfl, graphsTry_ok hsub ctx hseed]
      exact does_quiet hs

/-- A subtree in every graph, if it is known what it comes to in a graph for a row. -/
theorem graphs (hsrc : ctx.dataset = src.dataset) (hsub : sub.Plain) {k : Term → Binding → Flow}
    (hk : ∀ name seed, Runs ctx none 0 (sub.pipe ctx (.named name) (.input (.single seed)))
      (k name seed))
    (hp : Runs ctx all known p f) (h : phase.isDone = false) :
    Runs ctx all known (.graphs phase var sub none .idle p)
      (f.bind fun row => .overAll (candidateGraphs var src.names row) (inGraph var row k)) := by
  refine hp.through (fun names : { names // src.Knows names } => graphsStage ctx var sub names)
    (fun _ f => f.bind fun row =>
      .overAll (candidateGraphs var src.names row) (inGraph var row k))
    (fun names => graphsStage_asking names.1) (fun _ _ => Nat.le_refl _) (fun _ _ => rfl)
    (fun names row q f known ih => ?_) (fun _ _ _ => .done fun _ hs => ⟨rfl, rfl, hs⟩)
    ⟨none, .inl rfl⟩ (graphsStage_idle none phase h)
  have hq := ih ⟨some src.names, .inr rfl⟩ _ (graphsStage_idle (some src.names) .active rfl)
  refine .skip (fun state hs => ?_)
    (graphs_trying hsub hk row hq (candidateGraphs var src.names row))
  obtain ⟨events, state', hload, hs'⟩ := loadNames_source hsrc names.2 state
  show Does (graphsRow ctx var sub names row q state) _ _
  unfold graphsRow
  simp only [hload]
  exact ⟨rfl, rfl, hs'.trans hs⟩

end Graphs

end TripleQuery.Runs
