import TripleQuery.Proofs.Pipe.Replies
import TripleQuery.Proofs.Pipe.Stages

/-!
# What a step does to the state

All that a step does to the shared state of a run is a chain of few actions: a question is counted,
an answer cancels the run, a quad is counted, and a rejected row is (`Pipe.step_advances`). So no
step counts a row as given to the caller, and none counts anything unless counting is on.
-/

namespace TripleQuery

/-! ## Actions -/

/-- From one state of a run to another by actions of pipelines. -/
inductive RunState.Advances (cfg : Config) : RunState → RunState → Prop where
  | refl (state : RunState) : Advances cfg state state
  | asked {state state' : RunState} (cancels : Bool)
    (h : Advances cfg ({ state with scans := state.scans + 1 }.cancelIf cancels) state') :
    Advances cfg state state'
  | listed {state state' : RunState} (cancels : Bool)
    (h : Advances cfg ({ state with listings := state.listings + 1 }.cancelIf cancels) state') :
    Advances cfg state state'
  | scanned {state state' : RunState} (h : Advances cfg (state.recordScanned cfg 1) state') :
    Advances cfg state state'
  | filtered {state state' : RunState} (h : Advances cfg (state.recordFiltered cfg 1) state') :
    Advances cfg state state'
  | cancelled {state state' : RunState} (h : Advances cfg state.cancel state') :
    Advances cfg state state'

namespace RunState

variable (cfg : Config) (state : RunState) (n : UInt64)

@[simp] theorem cancelIf_stats (asked : Bool) : (state.cancelIf asked).stats = state.stats := by
  unfold cancelIf
  split <;> rfl

@[simp] theorem recordScanned_produced :
    (state.recordScanned cfg n).stats.produced = state.stats.produced := by
  unfold recordScanned
  split <;> rfl

@[simp] theorem recordFiltered_produced :
    (state.recordFiltered cfg n).stats.produced = state.stats.produced := by
  unfold recordFiltered
  split <;> rfl

variable {cfg} {state state' state'' : RunState}

theorem Advances.of_eq (h : state' = state) : state.Advances cfg state' := by
  subst h
  exact .refl state'

theorem Advances.trans (h : state.Advances cfg state') (h' : state'.Advances cfg state'') :
    state.Advances cfg state'' := by
  induction h with
  | refl => exact h'
  | asked cancels _ ih => exact .asked cancels (ih h')
  | listed cancels _ ih => exact .listed cancels (ih h')
  | scanned _ ih => exact .scanned (ih h')
  | filtered _ ih => exact .filtered (ih h')
  | cancelled _ ih => exact .cancelled (ih h')

/-- Pipelines do not count rows as given to the caller. -/
theorem Advances.produced (h : state.Advances cfg state') :
    state'.stats.produced = state.stats.produced := by
  induction h with
  | refl => rfl
  | asked _ _ ih | listed _ _ ih => rw [ih, cancelIf_stats]
  | scanned _ ih => rw [ih, recordScanned_produced]
  | filtered _ ih => rw [ih, recordFiltered_produced]
  | cancelled _ ih => exact ih

/-- Nothing is counted unless counting is on. -/
theorem Advances.stats (h : state.Advances cfg state') (hoff : cfg.collectStats = false) :
    state'.stats = state.stats := by
  have hcounting : ¬cfg.collectStats = true := ne_true_of_eq_false hoff
  induction h with
  | refl => rfl
  | asked _ _ ih | listed _ _ ih => rw [ih, cancelIf_stats]
  | scanned _ ih => rw [ih, recordScanned, if_neg hcounting]
  | filtered _ ih => rw [ih, recordFiltered, if_neg hcounting]
  | cancelled _ ih => exact ih

/-- Nobody takes a cancellation back. -/
theorem Advances.running (h : state.Advances cfg state') (hs : state'.cancelled = false) :
    state.cancelled = false := by
  induction h with
  | refl => exact hs
  | asked cancels _ ih | listed cancels _ ih =>
    have hnext := ih hs
    unfold cancelIf at hnext
    split at hnext
    · cases hnext
    · exact hnext
  | scanned _ ih =>
    rw [← recordScanned_cancelled]
    exact ih hs
  | filtered _ ih =>
    rw [← recordFiltered_cancelled]
    exact ih hs
  | cancelled _ ih => exact nomatch ih hs

variable {s : Step}

/-- A stage advances the state as its input does, and by what it does with a row. -/
theorem Advances.feedOr (h : state.Advances cfg s.state) {hold drop : Pipe → Pipe}
    {onRow : Binding → Pipe → RunState → Step} {onEnd : Pipe → RunState → Step}
    (hrow : ∀ b q (state : RunState), state.Advances cfg (onRow b q state).state)
    (hend : ∀ q state, (onEnd q state).state = state) :
    state.Advances cfg (s.feedOr hold drop onRow onEnd).state := by
  unfold Step.feedOr
  cases s.signal with
  | yield b => exact h.trans (hrow b s.pipe s.state)
  | done => exact h.trans (of_eq (hend s.pipe s.state))
  | fail _ | skip | await => exact h

end RunState

/-! ## Stages -/

section Stages

variable {ctx : Context}

theorem scanRow_advances (pattern : TriplePattern) (slot : GraphSlot) (row : Binding)
    (input : Pipe) (state : RunState) :
    state.Advances ctx.config (scanRow ctx pattern slot row input state).state := by
  unfold scanRow Context.openScan
  dsimp only
  cases (ctx.dataset.scan state.scans (.ofPattern pattern slot row)).result with
  | ok items => exact .asked _ (.refl _)
  | error e => exact .asked _ (.refl _)

theorem scanItem_advances (pattern : TriplePattern) (slot : GraphSlot) (row : Binding)
    (items : List CursorItem) (input : Pipe) (state : RunState) :
    state.Advances ctx.config (scanItem ctx pattern slot row items input state).state := by
  unfold scanItem
  split
  · exact .refl state
  · exact .scanned (.refl _)
  · exact .refl state
  · exact .cancelled (.refl _)

theorem filterRow_advances (e : Expr) (row : Binding) (input : Pipe) (state : RunState) :
    state.Advances ctx.config (filterRow ctx e row input state).state := by
  unfold filterRow
  split
  · exact .refl state
  · exact .filtered (.refl _)

theorem loadNames_advances (known : Option (List Term)) (state : RunState) :
    state.Advances ctx.config (ctx.loadNames known state).2.2 := by
  cases known with
  | some names => exact .refl state
  | none => exact .listed _ (.refl _)

end Stages

/-! ## All stages -/

/-- **Actions only.** A step advances the state by actions of pipelines. -/
theorem Pipe.step_advances (ctx : Context) (p : Pipe) (scope : Option SharedRows)
    (state : RunState) : state.Advances ctx.config (p.step ctx scope state).state := by
  induction p, state using step_induction generalizing scope with
  | at_hand h =>
    rw [h.step_eq]
    exact .refl _
  | tracked ih =>
    rw [step_tracked]
    exact ih scope
  | replay hd =>
    rw [step_replay hd]
    exact .of_eq (replayStep_state ..)
  | @share shared input body state ihi ihb =>
    have hbody := ihb (some shared)
    rw [step_share]
    split
    · exact hbody
    · split
      · exact hbody.trans (ihi (body.step ctx (some shared) state).state scope)
      · exact hbody
  | scan_reading hd =>
    rw [step_scan_reading hd]
    exact scanItem_advances ..
  | @scan _ pattern slot _ _ _ hd ha ih =>
    rw [step_scan hd ha]
    exact (ih scope).feedOr (scanRow_advances pattern slot) fun _ _ => rfl
  | @filter _ e _ _ hd ih =>
    rw [step_filter hd]
    exact (ih scope).feedOr (filterRow_advances e) fun _ _ => rfl
  | join_gathering hd ih =>
    rw [step_join_gathering hd]
    exact (ih scope).feedOr (fun _ _ state => .refl state) fun _ _ => joinGathered_state ..
  | join_idle hd ih =>
    rw [step_join_idle hd]
    exact (ih scope).feedOr (fun _ _ state => .refl state) fun _ _ => rfl
  | join_trying hd =>
    rw [step_join_trying hd]
    exact .of_eq (joinTry_state ..)
  | optional hd ih =>
    rw [step_optional hd]
    exact (ih scope).feedOr (fun _ _ _ => .of_eq (optionalRow_state ..)) fun _ _ => rfl
  | probing ih =>
    rw [step_probing]
    exact (ih scope).feedOr (fun _ _ _ => .of_eq (probeRow_state ..)) fun _ _ => rfl
  | graphs_trying hd =>
    rw [step_graphs_trying hd]
    exact .of_eq (graphsTry_state ..)
  | @graphs _ _ _ known _ _ _ hd ha ih =>
    rw [step_graphs hd ha]
    refine (ih scope).feedOr (fun row q state => ?_) fun _ _ => rfl
    rw [graphsRow_state]
    exact loadNames_advances known state
  | within ih =>
    rw [step_within]
    exact (ih scope).feedOr (fun _ _ state => .refl state) fun _ _ => rfl
  | @names _ _ known _ _ hd ih =>
    rw [step_names_nil hd]
    refine (ih scope).feedOr (fun row q state => ?_) fun _ _ => rfl
    rw [namesRow_state]
    exact loadNames_advances known state
  | table_nil hd =>
    rw [step_table_nil hd]
    exact .refl _
  | table_trying hd hrows =>
    rw [step_table_trying hd hrows]
    exact .of_eq (tableTry_state ..)
  | table_idle hd hrows ih =>
    rw [step_table_idle hd hrows]
    exact (ih scope).feedOr (fun _ _ state => .refl state) fun _ _ => rfl
  | order hd ih =>
    rw [step_order_gathering hd]
    exact (ih scope).feedOr (fun _ _ _ => .of_eq (orderRow_state ..)) fun _ _ => rfl
  | project hd ih =>
    rw [step_project hd]
    exact (ih scope).feedOr (fun _ _ state => .refl state) fun _ _ => rfl
  | distinct hd ih =>
    rw [step_distinct hd]
    exact (ih scope).feedOr (fun _ _ _ => .of_eq (distinctRow_state ..)) fun _ _ => rfl
  | slice_zero hd =>
    rw [step_slice_zero hd]
    exact .refl _
  | slice hd hzero ih =>
    rw [step_slice hd hzero]
    exact (ih scope).feedOr (fun _ _ _ => .of_eq (sliceRow_state ..)) fun _ _ => rfl
  | concat_first hd ih =>
    rw [step_concat_first hd]
    exact (ih scope).feedOr (fun _ _ state => .refl state) fun _ _ => rfl
  | concat_rest hd ih =>
    rw [step_concat_rest hd]
    exact (ih scope).feedOr (fun _ _ state => .refl state) fun _ _ => rfl

end TripleQuery
