import TripleQuery.Proofs.Pipe.Step

/-!
# Phases

Every step moves a stage that has not ended: it goes on or it runs out, and its signal tells which
(`Pipe.step_moves`). A stage that has ended, or is closed, says so at once, and neither it nor
anything below it notices (`Pipe.step_ended`). The one exception are trackers that stand at the root
of a pipeline: they record that they are asked.
-/

namespace TripleQuery

/-- The place of a phase in the life of a stage. -/
def Phase.rank : Phase → Nat
  | created => 0
  | active => 1
  | exhausted => 2
  | closed => 3

/-! ## Before the end -/

/-- The phase in which a signal leaves a stage that had not ended. -/
def Signal.leaves : Signal → Phase
  | done => .exhausted
  | yield _ | skip | await | fail _ => .active

/-- The trackers at the root of a pipeline, outermost first. -/
def Pipe.recorders : Pipe → List String
  | tracked id _ input => id :: input.recorders
  | share _ _ body => body.recorders
  | _ => []

/-- The stage goes on or has run out, as the signal says, under the same trackers. -/
structure Step.Moves (ids : List String) (s : Step) : Prop where
  phase : s.pipe.phase = s.signal.leaves
  recorders : s.pipe.recorders = ids

/-- The pipeline is a stage that goes on. -/
structure Pipe.GoesOn (p : Pipe) : Prop where
  phase : p.phase = .active
  recorders : p.recorders = []

section Stages

variable {s : Step}

theorem Step.Moves.after {ids : List String} (h : s.Moves ids) (events : List Event) :
    (s.after events).Moves ids :=
  ⟨h.phase, h.recorders⟩

theorem feedOr_moves {hold drop : Pipe → Pipe} {onRow : Binding → Pipe → RunState → Step}
    {onEnd : Pipe → RunState → Step} (hhold : ∀ q, (hold q).GoesOn)
    (hdrop : ∀ q, (drop q).GoesOn) (hrow : ∀ b q state, (onRow b q state).Moves [])
    (hend : ∀ q state, (onEnd q state).Moves []) : (s.feedOr hold drop onRow onEnd).Moves [] := by
  unfold Step.feedOr
  cases s.signal with
  | yield b => exact (hrow b s.pipe s.state).after s.events
  | done => exact (hend s.pipe s.state).after s.events
  | fail e => exact ⟨(hdrop s.pipe).phase, (hdrop s.pipe).recorders⟩
  | skip | await => exact ⟨(hhold s.pipe).phase, (hhold s.pipe).recorders⟩

variable {ctx : Context}

/-! ### Scans and graphs -/

theorem scanItem_moves {pattern : TriplePattern} {slot : GraphSlot} {row : Binding}
    {items : List CursorItem} {input : Pipe} {state : RunState} :
    (scanItem ctx pattern slot row items input state).Moves [] := by
  unfold scanItem
  split
  · exact ⟨rfl, rfl⟩
  · next q rest => cases h : bindQuad pattern slot row q <;> exact ⟨rfl, rfl⟩
  · exact ⟨rfl, rfl⟩
  · exact ⟨rfl, rfl⟩

theorem scanStep_moves {pattern : TriplePattern} {slot : GraphSlot} :
    (scanStep ctx pattern slot s).Moves [] := by
  refine feedOr_moves (fun _ => ⟨rfl, rfl⟩) (fun _ => ⟨rfl, rfl⟩) (fun b q state => ?_)
    fun _ _ => ⟨rfl, rfl⟩
  unfold scanRow
  dsimp only
  split <;> exact ⟨rfl, rfl⟩

theorem graphsStep_moves {var : Variable} {sub : Op} {known : Option (List Term)} :
    (graphsStep ctx var sub known s).Moves [] := by
  refine feedOr_moves (fun _ => ⟨rfl, rfl⟩) (fun _ => ⟨rfl, rfl⟩) (fun b q state => ?_)
    fun _ _ => ⟨rfl, rfl⟩
  unfold graphsRow
  split <;> exact ⟨rfl, rfl⟩

theorem graphsTry_moves {var : Variable} {sub : Op} {known : Option (List Term)} {row : Binding}
    {candidates : List Term} {input : Pipe} {state : RunState} :
    (graphsTry ctx var sub known row candidates input state).Moves [] := by
  unfold graphsTry
  split
  · exact ⟨rfl, rfl⟩
  · dsimp only
    split
    · exact ⟨rfl, rfl⟩
    · split <;> exact ⟨rfl, rfl⟩

theorem withinStep_moves {var : Variable} {sub : Op} {known : Option (List Term)} {row : Binding}
    {candidates : List Term} {input : Pipe} :
    (withinStep var sub known row candidates input s).Moves [] := by
  unfold withinStep Step.feed
  refine feedOr_moves (fun _ => ?_) (fun _ => ?_) (fun _ _ _ => ?_) (fun _ _ => ?_)
  all_goals exact ⟨rfl, rfl⟩

theorem namesStep_moves {name : TermPattern} {known : Option (List Term)} :
    (namesStep ctx name known s).Moves [] := by
  refine feedOr_moves (fun _ => ⟨rfl, rfl⟩) (fun _ => ⟨rfl, rfl⟩) (fun b q state => ?_)
    fun _ _ => ⟨rfl, rfl⟩
  unfold namesRow
  split <;> exact ⟨rfl, rfl⟩

/-! ### Joins -/

variable {kind : JoinKind} {condition : Option Expr}

theorem joinRightStep_moves {rows : Array Binding} {left : Pipe} :
    (joinRightStep ctx kind condition rows left s).Moves [] := by
  refine feedOr_moves (fun _ => ⟨rfl, rfl⟩) (fun _ => ⟨rfl, rfl⟩) (fun b q state => ?_)
    fun q state => ?_
  · unfold joinGather
    dsimp only
    split <;> exact ⟨rfl, rfl⟩
  · unfold joinGathered
    refine Step.Moves.after ?_ _
    split <;> exact ⟨rfl, rfl⟩

theorem joinLeftStep_moves {rows : List Binding} {right : Pipe} :
    (joinLeftStep kind condition rows right s).Moves [] := by
  unfold joinLeftStep Step.feed
  refine feedOr_moves (fun _ => ?_) (fun _ => ?_) (fun _ _ _ => ?_) (fun _ _ => ?_)
  all_goals exact ⟨rfl, rfl⟩

theorem joinTry_moves {rows : List Binding} {row : Binding} {untried : List Binding}
    {matched : Bool} {left right : Pipe} {state : RunState} :
    (joinTry kind condition rows row untried matched left right state).Moves [] := by
  unfold joinTry
  split
  · split <;> exact ⟨rfl, rfl⟩
  · dsimp only
    split
    · exact ⟨rfl, rfl⟩
    · split <;> exact ⟨rfl, rfl⟩

theorem optionalStep_moves {right : Op} {graph : ActiveGraph} :
    (optionalStep ctx right condition graph s).Moves [] := by
  refine feedOr_moves (fun _ => ⟨rfl, rfl⟩) (fun _ => ⟨rfl, rfl⟩) (fun b q state => ?_)
    fun _ _ => ⟨rfl, rfl⟩
  unfold optionalRow
  dsimp only
  split <;> exact ⟨rfl, rfl⟩

theorem probeStep_moves {right : Op} {graph : ActiveGraph} {row : Binding} {matched : Bool}
    {input : Pipe} : (probeStep right condition graph row matched input s).Moves [] := by
  unfold probeStep Step.feed
  refine feedOr_moves (fun _ => ⟨rfl, rfl⟩) (fun _ => ⟨rfl, rfl⟩) (fun b q state => ?_)
    fun q state => ?_
  · unfold probeRow
    split <;> exact ⟨rfl, rfl⟩
  · unfold probeEnd
    cases matched <;> exact ⟨rfl, rfl⟩

/-! ### Stages with one input -/

theorem filterStep_moves {e : Expr} : (filterStep ctx e s).Moves [] := by
  refine feedOr_moves (fun _ => ⟨rfl, rfl⟩) (fun _ => ⟨rfl, rfl⟩) (fun b q state => ?_)
    fun _ _ => ⟨rfl, rfl⟩
  unfold filterRow
  split <;> exact ⟨rfl, rfl⟩

theorem projectStep_moves {vars : List Variable} : (projectStep vars s).Moves [] := by
  unfold projectStep Step.feed
  refine feedOr_moves (fun _ => ?_) (fun _ => ?_) (fun _ _ _ => ?_) (fun _ _ => ?_)
  all_goals exact ⟨rfl, rfl⟩

theorem tableStep_moves {rows : List Binding} : (tableStep rows s).Moves [] := by
  unfold tableStep Step.feed
  refine feedOr_moves (fun _ => ?_) (fun _ => ?_) (fun _ _ _ => ?_) (fun _ _ => ?_)
  all_goals exact ⟨rfl, rfl⟩

theorem tableTry_moves {rows : List Binding} {row : Binding} {untried : List Binding} {input : Pipe}
    {state : RunState} : (tableTry rows row untried input state).Moves [] := by
  unfold tableTry
  split
  · exact ⟨rfl, rfl⟩
  · next other untried => cases h : (row.merge other).toOption <;> exact ⟨rfl, rfl⟩

theorem sliceStep_moves {skip : Nat} {remaining : Option Nat} :
    (sliceStep skip remaining s).Moves [] := by
  refine feedOr_moves (fun _ => ⟨rfl, rfl⟩) (fun _ => ⟨rfl, rfl⟩) (fun b q state => ?_)
    fun _ _ => ⟨rfl, rfl⟩
  unfold sliceRow
  split
  · exact ⟨rfl, rfl⟩
  · split <;> exact ⟨rfl, rfl⟩
  · exact ⟨rfl, rfl⟩

theorem distinctStep_moves {seen : List Binding} {limit : Nat} :
    (distinctStep seen limit s).Moves [] := by
  refine feedOr_moves (fun _ => ⟨rfl, rfl⟩) (fun _ => ⟨rfl, rfl⟩) (fun b q state => ?_)
    fun _ _ => ⟨rfl, rfl⟩
  unfold distinctRow
  dsimp only
  split
  · exact ⟨rfl, rfl⟩
  · split <;> exact ⟨rfl, rfl⟩

theorem orderStep_moves {keys : List SortKey} {keyed : Array (List (Option Term) × Binding)} :
    (orderStep ctx keys keyed s).Moves [] := by
  refine feedOr_moves (fun _ => ⟨rfl, rfl⟩) (fun _ => ⟨rfl, rfl⟩) (fun b q state => ?_)
    fun _ _ => ⟨rfl, rfl⟩
  unfold orderRow
  dsimp only
  split
  · exact ⟨rfl, rfl⟩
  · split <;> exact ⟨rfl, rfl⟩

theorem concatFirstStep_moves {rest : Pipe} : (concatFirstStep rest s).Moves [] := by
  unfold concatFirstStep Step.feed
  refine feedOr_moves (fun _ => ?_) (fun _ => ?_) (fun _ _ _ => ?_) (fun _ _ => ?_)
  all_goals exact ⟨rfl, rfl⟩

theorem concatRestStep_moves {first : Pipe} : (concatRestStep first s).Moves [] := by
  unfold concatRestStep Step.feed
  refine feedOr_moves (fun _ => ?_) (fun _ => ?_) (fun _ _ _ => ?_) (fun _ _ => ?_)
  all_goals exact ⟨rfl, rfl⟩

end Stages

/-! ### All stages -/

theorem replayStep_moves {scope : Option SharedRows} {phase : Phase} (h : phase.isDone = false)
    {position : Nat} {state : RunState} : (replayStep scope phase position state).Moves [] := by
  have hactive : phase.activate = .active := by
    cases phase with
    | created | active => rfl
    | exhausted | closed => cases h
  have hexhausted : phase.exhaust = .exhausted := by
    cases phase with
    | created | active => rfl
    | exhausted | closed => cases h
  unfold replayStep
  split
  · exact ⟨hactive, rfl⟩
  · split
    · exact ⟨hactive, rfl⟩
    · split
      · exact ⟨hactive, rfl⟩
      · split
        · exact ⟨hexhausted, rfl⟩
        · exact ⟨hactive, rfl⟩

/-- A scope over a step of its body that moves. -/
theorem share_moves {ctx : Context} {scope : Option SharedRows} {shared : SharedRows}
    {input body : Pipe} {state : RunState}
    (h : (body.step ctx (some shared) state).Moves body.recorders) :
    ((Pipe.share shared input body).step ctx scope state).Moves body.recorders := by
  rw [Pipe.step_share]
  split
  · refine ⟨h.phase.trans ?_, h.recorders⟩
    show _ = Signal.leaves (ite ..)
    split
    · next hawait => rw [hawait]; rfl
    · rfl
  · split
    · next hawait =>
      refine ⟨h.phase.trans ?_, h.recorders⟩
      show _ = Signal.leaves (ite ..)
      rw [hawait]
      split <;> rfl
    · exact ⟨h.phase, h.recorders⟩

/-- **Moving on.** With every step a pipeline that has not ended goes on or runs out. -/
theorem Pipe.step_moves {p : Pipe} (ctx : Context) (scope : Option SharedRows) (state : RunState)
    (h : p.phase.isDone = false) : (p.step ctx scope state).Moves p.recorders := by
  induction p, state using step_induction generalizing scope with
  | at_hand hat =>
    rw [hat.step_eq]
    cases hat with
    | spent hspent => cases (isDone_of_isSpent hspent).symm.trans h
    | _ => exact ⟨rfl, rfl⟩
  | @tracked id _ _ _ ih =>
    have hs := ih scope h
    rw [step_tracked]
    exact ⟨hs.phase, congrArg (id :: ·) hs.recorders⟩
  | replay hd =>
    rw [step_replay hd]
    exact replayStep_moves hd
  | @share shared _ _ _ _ ih => exact share_moves (ih (some shared) h)
  | scan_reading hd => rw [step_scan_reading hd]; exact scanItem_moves
  | scan hd ha => rw [step_scan hd ha]; exact scanStep_moves
  | filter hd => rw [step_filter hd]; exact filterStep_moves
  | join_gathering hd => rw [step_join_gathering hd]; exact joinRightStep_moves
  | join_idle hd => rw [step_join_idle hd]; exact joinLeftStep_moves
  | join_trying hd => rw [step_join_trying hd]; exact joinTry_moves
  | optional hd => rw [step_optional hd]; exact optionalStep_moves
  | probing => rw [step_probing]; exact probeStep_moves
  | graphs_trying hd => rw [step_graphs_trying hd]; exact graphsTry_moves
  | graphs hd ha => rw [step_graphs hd ha]; exact graphsStep_moves
  | within => rw [step_within]; exact withinStep_moves
  | names hd => rw [step_names_nil hd]; exact namesStep_moves
  | table_nil hd => rw [step_table_nil hd]; exact ⟨rfl, rfl⟩
  | table_trying hd hrows => rw [step_table_trying hd hrows]; exact tableTry_moves
  | table_idle hd hrows => rw [step_table_idle hd hrows]; exact tableStep_moves
  | order hd => rw [step_order_gathering hd]; exact orderStep_moves
  | project hd => rw [step_project hd]; exact projectStep_moves
  | distinct hd => rw [step_distinct hd]; exact distinctStep_moves
  | slice_zero hd => rw [step_slice_zero hd]; exact ⟨rfl, rfl⟩
  | slice hd hzero => rw [step_slice hd hzero]; exact sliceStep_moves
  | concat_first hd => rw [step_concat_first hd]; exact concatFirstStep_moves
  | concat_rest hd => rw [step_concat_rest hd]; exact concatRestStep_moves

/-! ## After the end -/

namespace Pipe

/-- The pipeline with nothing noted at its root: no call that a tracker has recorded is under way,
and no scope has a failure to report. Below the root it is the same. -/
def rested : Pipe → Pipe
  | tracked id _ input => tracked id false input.rested
  | share shared input body => share shared.clear input body.rested
  | p => p

theorem rested_phase (p : Pipe) : p.rested.phase = p.phase := by
  induction p with
  | tracked _ _ _ ih | share _ _ _ _ ih => exact ih
  | _ => rfl

theorem rested_recorders (p : Pipe) : p.rested.recorders = p.recorders := by
  induction p with
  | tracked id _ _ ih => exact congrArg (id :: ·) ih
  | share _ _ _ _ ih => exact ih
  | _ => rfl

end Pipe

/-- The step says that there is no more, and leaves everything as it is. All that happens is that
the trackers at the root record the question. -/
structure Step.Ends (s : Step) (p : Pipe) (state : RunState) : Prop where
  signal : s.signal = .done
  pipe : s.pipe = p.rested
  events : ∀ e ∈ s.events, ∃ id ∈ p.recorders, e = .pulled id
  state : s.state = state

theorem Pipe.spent_ends {p : Pipe} {ctx : Context} {scope : Option SharedRows} {state : RunState}
    (h : p.isSpent = true) : (p.step ctx scope state).Ends p state := by
  have hrested : p = p.rested := by
    cases p with
    | tracked | share => cases h
    | _ => rfl
  rw [step_spent h]
  exact ⟨rfl, hrested, fun _ he => absurd he List.not_mem_nil, rfl⟩

/-- **Resting.** A pipeline that has ended answers at once, and nothing below its root is asked. -/
theorem Pipe.step_ended {p : Pipe} (ctx : Context) (scope : Option SharedRows) (state : RunState)
    (h : p.phase.isDone = true) : (p.step ctx scope state).Ends p state := by
  induction p generalizing scope with
  | tracked id calling input ih =>
    have hs := ih scope h
    have hpending : (input.step ctx scope state).signal.isPending = false := by rw [hs.signal]; rfl
    rw [step_tracked, hpending, hs.pipe]
    refine ⟨hs.signal, rfl, fun e he => ?_, hs.state⟩
    have hcases : e = .pulled id ∨ e ∈ (input.step ctx scope state).events := by
      cases calling with
      | true => exact .inr he
      | false => exact List.mem_cons.1 he
    rcases hcases with rfl | he
    · exact ⟨id, List.mem_cons_self, rfl⟩
    · obtain ⟨id', hid, rfl⟩ := hs.events e he
      exact ⟨id', List.mem_cons_of_mem id hid, rfl⟩
  | share shared input body _ ih =>
    have hs := ih (some shared) h
    have hreleases : ¬ (body.step ctx (some shared) state).events.any Event.isRelease = true := by
      intro hany
      obtain ⟨e, he, hrelease⟩ := List.any_eq_true.1 hany
      obtain ⟨id, -, rfl⟩ := hs.events e he
      cases hrelease
    rw [step_share, if_neg hreleases, if_neg (by rw [hs.signal]; nofun)]
    exact ⟨hs.signal, congrArg (share shared.clear input) hs.pipe, hs.events, hs.state⟩
  | probing | within => cases h
  | _ => exact spent_ends h

/-! ## Closing -/

/-- Closing comes after every other phase. -/
theorem Pipe.close_phase (p : Pipe) : p.close.1.phase = .closed := by
  induction p with
  | tracked _ _ _ ih | share _ _ _ _ ih => exact ih
  | _ => rfl

theorem Pipe.close_recorders (p : Pipe) : p.close.1.recorders = p.recorders := by
  induction p with
  | tracked id _ _ ih => exact congrArg (id :: ·) ih
  | share _ _ _ _ ih => exact ih
  | _ => rfl

end TripleQuery
