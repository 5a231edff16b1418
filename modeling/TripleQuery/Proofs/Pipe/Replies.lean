import TripleQuery.Proofs.Pipe.Heard

/-!
# What is heard is what was asked

A run counts its scans and its listings, and asks the dataset by these numbers. What a step hears is
complete in this regard (`Pipe.heard_replies`): the counters advance by the openings and the
listings that are heard, and each of them is the reply to the question of its number.
-/

namespace TripleQuery

/-! ## Numbered replies -/

/-- Between two pairs of counters, of scans and of listings, some answers are heard. -/
inductive Replies (d : Dataset) : Nat → Nat → List Heard → Nat → Nat → Prop where
  | nil (scans listings : Nat) : Replies d scans listings [] scans listings
  | opening {scans listings scans' listings' : Nat} (r : ScanRequest) {rest : List Heard}
    (h : Replies d (scans + 1) listings rest scans' listings') :
    Replies d scans listings
      (.opening (d.scan scans r).cancels (d.scan scans r).failure? :: rest) scans' listings'
  | names {scans listings scans' listings' : Nat} {rest : List Heard}
    (h : Replies d scans (listings + 1) rest scans' listings') :
    Replies d scans listings
      (.names (d.graphNames listings).cancels (d.graphNames listings).failure? :: rest) scans'
      listings'
  | item {scans listings scans' listings' : Nat} (next : Option CursorItem) {rest : List Heard}
    (h : Replies d scans listings rest scans' listings') :
    Replies d scans listings (.item next :: rest) scans' listings'

namespace Replies

variable {d : Dataset} {scans listings scans' listings' scans'' listings'' k : Nat}
  {heard heard' : List Heard}

theorem append (h : Replies d scans listings heard scans' listings')
    (h' : Replies d scans' listings' heard' scans'' listings'') :
    Replies d scans listings (heard ++ heard') scans'' listings'' := by
  induction h with
  | nil => exact h'
  | opening r _ ih => exact .opening r (ih h')
  | names _ ih => exact .names (ih h')
  | item next _ ih => exact .item next (ih h')

/-- Every scan that is counted was heard to be opened. -/
theorem opening_mem (h : Replies d scans listings heard scans' listings') (hk : scans ≤ k)
    (hk' : k < scans') : ∃ r, .opening (d.scan k r).cancels (d.scan k r).failure? ∈ heard := by
  induction h with
  | nil => omega
  | @opening scans _ _ _ r _ _ ih =>
    rcases Nat.eq_or_lt_of_le hk with rfl | hlt
    · exact ⟨r, List.mem_cons_self⟩
    · obtain ⟨r', hr⟩ := ih hlt hk'
      exact ⟨r', List.mem_cons_of_mem _ hr⟩
  | names _ ih | item _ _ ih =>
    obtain ⟨r', hr⟩ := ih hk hk'
    exact ⟨r', List.mem_cons_of_mem _ hr⟩

/-- Every listing that is counted was heard. -/
theorem names_mem (h : Replies d scans listings heard scans' listings') (hk : listings ≤ k)
    (hk' : k < listings') :
    .names (d.graphNames k).cancels (d.graphNames k).failure? ∈ heard := by
  induction h with
  | nil => omega
  | names _ ih =>
    rcases Nat.eq_or_lt_of_le hk with rfl | hlt
    · exact List.mem_cons_self
    · exact List.mem_cons_of_mem _ (ih hlt hk')
  | opening _ _ ih | item _ _ ih => exact List.mem_cons_of_mem _ (ih hk hk')

end Replies

/-! ## States -/

namespace RunState

/-- From one state of a run to another, some answers are heard. -/
def Told (d : Dataset) (state : RunState) (heard : List Heard) (state' : RunState) : Prop :=
  Replies d state.scans state.listings heard state'.scans state'.listings

/-- The counters of questions are the same. -/
def SameCounts (state state' : RunState) : Prop :=
  state'.scans = state.scans ∧ state'.listings = state.listings

variable {d : Dataset} {state state' state'' : RunState} {heard heard' : List Heard}

theorem SameCounts.of_eq (h : state' = state) : state.SameCounts state' := by
  subst h
  exact ⟨rfl, rfl⟩

namespace Told

/-- Nothing is asked. -/
theorem silent (h : state.SameCounts state') : state.Told d [] state' := by
  obtain ⟨hscans, hlistings⟩ := h
  unfold Told
  rw [hscans, hlistings]
  exact .nil _ _

theorem unchanged (h : state' = state) : state.Told d [] state' :=
  silent (.of_eq h)

theorem item (next : Option CursorItem) (h : state.SameCounts state') :
    state.Told d [.item next] state' :=
  Replies.item next (silent h)

theorem append (h : state.Told d heard state') (h' : state'.Told d heard' state'') :
    state.Told d (heard ++ heard') state'' :=
  Replies.append h h'

theorem extend (h : state.Told d heard state') (h' : state'.SameCounts state'') :
    state.Told d heard state'' := by
  have hmore := h.append (silent h')
  rwa [List.append_nil] at hmore

variable {s : Step}

/-- A stage has heard what its input has, and what it asks about a row. -/
theorem feedOr (h : state.Told d heard s.state) {hold drop : Pipe → Pipe}
    {onRow : Binding → Pipe → RunState → Step} {onEnd : Pipe → RunState → Step}
    {ask : Binding → RunState → List Heard}
    (hrow : ∀ b q (state : RunState), state.Told d (ask b state) (onRow b q state).state)
    (hend : ∀ q state, (onEnd q state).state = state) :
    state.Told d (heard ++ s.asks ask) (s.feedOr hold drop onRow onEnd).state := by
  unfold Step.feedOr Step.asks
  cases s.signal with
  | yield b => exact h.append (hrow b s.pipe s.state)
  | done => exact h.append (unchanged (hend s.pipe s.state))
  | fail _ | skip | await =>
    rw [List.append_nil]
    exact h

theorem feed (h : state.Told d heard s.state) {hold drop : Pipe → Pipe}
    {onRow : Binding → Pipe → RunState → Step} {onEnd : Pipe → RunState → Step}
    (hrow : ∀ b q (state : RunState), state.SameCounts (onRow b q state).state)
    (hend : ∀ q state, (onEnd q state).state = state) :
    state.Told d heard (s.feedOr hold drop onRow onEnd).state := by
  have hfed : state.Told d (heard ++ s.asks fun _ _ => []) (s.feedOr hold drop onRow onEnd).state :=
    h.feedOr (fun b q state => silent (hrow b q state)) hend
  rwa [Step.asks_none, List.append_nil] at hfed

end Told

section Counts

variable (state : RunState) (cfg : Config) (n : UInt64)

theorem recordProduced_counts : state.SameCounts (state.recordProduced cfg n) := by
  unfold recordProduced
  split <;> exact ⟨rfl, rfl⟩

theorem recordFiltered_counts : state.SameCounts (state.recordFiltered cfg n) := by
  unfold recordFiltered
  split <;> exact ⟨rfl, rfl⟩

theorem recordScanned_counts : state.SameCounts (state.recordScanned cfg n) := by
  unfold recordScanned
  split <;> exact ⟨rfl, rfl⟩

theorem cancelIf_counts (asked : Bool) : state.SameCounts (state.cancelIf asked) := by
  unfold cancelIf
  split <;> exact ⟨rfl, rfl⟩

end Counts

end RunState

/-! ## Stages -/

section Stages

variable {ctx : Context} {state : RunState} {heard : List Heard} {s : Step}

theorem replayStep_state (scope : Option SharedRows) (phase : Phase) (position : Nat)
    (state : RunState) : (replayStep scope phase position state).state = state := by
  unfold replayStep
  repeat' split
  all_goals rfl

theorem scanRow_told (pattern : TriplePattern) (slot : GraphSlot) (row : Binding) (input : Pipe)
    (state : RunState) :
    state.Told ctx.dataset (ctx.hearScan pattern slot row state)
      (scanRow ctx pattern slot row input state).state := by
  have hcounts := RunState.cancelIf_counts { state with scans := state.scans + 1 }
    (ctx.dataset.scan state.scans (.ofPattern pattern slot row)).cancels
  have hasked : state.Told ctx.dataset (ctx.hearScan pattern slot row state)
      (({ state with scans := state.scans + 1 } : RunState).cancelIf
        (ctx.dataset.scan state.scans (.ofPattern pattern slot row)).cancels) :=
    .opening _ (RunState.Told.silent hcounts)
  unfold scanRow Context.openScan
  dsimp only
  cases (ctx.dataset.scan state.scans (.ofPattern pattern slot row)).result with
  | ok items => exact hasked
  | error e => exact hasked

theorem loadNames_told (known : Option (List Term)) (state : RunState) :
    state.Told ctx.dataset (ctx.hearNames known state) (ctx.loadNames known state).2.2 := by
  cases known with
  | some names => exact .unchanged rfl
  | none =>
    have hcounts := RunState.cancelIf_counts { state with listings := state.listings + 1 }
      (ctx.dataset.graphNames state.listings).cancels
    exact .names (RunState.Told.silent hcounts)

theorem graphsRow_state (var : Variable) (sub : Op) (known : Option (List Term)) (row : Binding)
    (input : Pipe) (state : RunState) :
    (graphsRow ctx var sub known row input state).state = (ctx.loadNames known state).2.2 := by
  unfold graphsRow
  split <;> next h => rw [h]

theorem namesRow_state (name : TermPattern) (known : Option (List Term)) (row : Binding)
    (input : Pipe) (state : RunState) :
    (namesRow ctx name known row input state).state = (ctx.loadNames known state).2.2 := by
  unfold namesRow
  split <;> next h => rw [h]

theorem scanItem_told (pattern : TriplePattern) (slot : GraphSlot) (row : Binding)
    (items : List CursorItem) (input : Pipe) (state : RunState) :
    state.Told ctx.dataset [.item items.head?]
      (scanItem ctx pattern slot row items input state).state := by
  refine .item _ ?_
  unfold scanItem
  split
  · exact ⟨rfl, rfl⟩
  · exact state.recordScanned_counts ctx.config 1
  · exact ⟨rfl, rfl⟩
  · exact ⟨rfl, rfl⟩

theorem filterRow_counts (e : Expr) (row : Binding) (input : Pipe) (state : RunState) :
    state.SameCounts (filterRow ctx e row input state).state := by
  unfold filterRow
  split
  · exact ⟨rfl, rfl⟩
  · exact state.recordFiltered_counts ctx.config 1

theorem sliceRow_state (skip : Nat) (remaining : Option Nat) (row : Binding) (input : Pipe)
    (state : RunState) : (sliceRow skip remaining row input state).state = state := by
  unfold sliceRow
  repeat' split
  all_goals rfl

theorem distinctRow_state (seen : List Binding) (limit : Nat) (row : Binding) (input : Pipe)
    (state : RunState) : (distinctRow seen limit row input state).state = state := by
  unfold distinctRow
  split <;> rfl

theorem orderRow_state (keys : List SortKey) (keyed : Array (List (Option Term) × Binding))
    (row : Binding) (input : Pipe) (state : RunState) :
    (orderRow ctx keys keyed row input state).state = state := by
  unfold orderRow
  dsimp only
  repeat' split
  all_goals rfl

theorem tableTry_state (rows : List Binding) (row : Binding) (untried : List Binding)
    (input : Pipe) (state : RunState) : (tableTry rows row untried input state).state = state := by
  unfold tableTry
  split <;> rfl

theorem joinGathered_state (kind : JoinKind) (condition : Option Expr) (rows : Array Binding)
    (left right : Pipe) (state : RunState) :
    (joinGathered kind condition rows left right state).state = state := by
  unfold joinGathered
  dsimp only [Step.after]
  split <;> rfl

theorem joinTry_state (kind : JoinKind) (condition : Option Expr) (rows : List Binding)
    (row : Binding) (untried : List Binding) (matched : Bool) (left right : Pipe)
    (state : RunState) :
    (joinTry kind condition rows row untried matched left right state).state = state := by
  unfold joinTry
  dsimp only
  repeat' split
  all_goals rfl

theorem optionalRow_state (sub : Op) (condition : Option Expr) (g : ActiveGraph) (row : Binding)
    (input : Pipe) (state : RunState) :
    (optionalRow ctx sub condition g row input state).state = state := by
  unfold optionalRow
  dsimp only
  split <;> rfl

theorem probeRow_state (sub : Op) (condition : Option Expr) (g : ActiveGraph) (left : Binding)
    (matched : Bool) (input : Pipe) (row : Binding) (probe : Pipe) (state : RunState) :
    (probeRow sub condition g left matched input row probe state).state = state := by
  unfold probeRow
  split <;> rfl

theorem graphsTry_state (var : Variable) (sub : Op) (known : Option (List Term)) (row : Binding)
    (candidates : List Term) (input : Pipe) (state : RunState) :
    (graphsTry ctx var sub known row candidates input state).state = state := by
  unfold graphsTry
  dsimp only
  repeat' split
  all_goals rfl

end Stages

/-! ## All stages -/

/-- **All questions are heard.** The counters of a run advance with a step by the openings and the
listings that it hears, and each of them is the reply to the question of its number. -/
theorem Pipe.heard_replies (ctx : Context) (p : Pipe) (scope : Option SharedRows)
    (state : RunState) :
    state.Told ctx.dataset (p.heard ctx scope state) (p.step ctx scope state).state := by
  induction p, state using step_induction generalizing scope with
  | at_hand h =>
    rw [h.heard_eq, h.step_eq]
    exact .unchanged rfl
  | tracked ih =>
    rw [heard_tracked, step_tracked]
    exact ih scope
  | replay hd =>
    rw [heard_replay, step_replay hd]
    exact .unchanged (replayStep_state ..)
  | @share shared input body state ihi ihb =>
    have hbody := ihb (some shared)
    rw [heard_share, step_share]
    split
    · rw [List.append_nil]
      exact hbody
    · split
      · exact hbody.append (ihi (body.step ctx (some shared) state).state scope)
      · rw [List.append_nil]
        exact hbody
  | scan_reading hd =>
    rw [heard_scan_reading hd, step_scan_reading hd]
    exact scanItem_told ..
  | @scan _ pattern slot _ _ _ hd ha ih =>
    rw [heard_scan hd ha, step_scan hd ha]
    exact (ih scope).feedOr (scanRow_told pattern slot) fun _ _ => rfl
  | @filter _ e _ _ hd ih =>
    rw [heard_filter hd, step_filter hd]
    exact (ih scope).feed (filterRow_counts e) fun _ _ => rfl
  | join_gathering hd ih =>
    rw [heard_join_gathering hd, step_join_gathering hd]
    exact (ih scope).feed (fun _ _ _ => ⟨rfl, rfl⟩) fun _ _ => joinGathered_state ..
  | join_idle hd ih =>
    rw [heard_join_idle hd, step_join_idle hd]
    exact (ih scope).feed (fun _ _ _ => ⟨rfl, rfl⟩) fun _ _ => rfl
  | join_trying hd =>
    rw [heard_join_trying hd, step_join_trying hd]
    exact .unchanged (joinTry_state ..)
  | optional hd ih =>
    rw [heard_optional hd, step_optional hd]
    exact (ih scope).feed (fun _ _ _ => .of_eq (optionalRow_state ..)) fun _ _ => rfl
  | probing ih =>
    rw [heard_probing, step_probing]
    exact (ih scope).feed (fun _ _ _ => .of_eq (probeRow_state ..)) fun _ _ => rfl
  | graphs_trying hd =>
    rw [heard_graphs_trying hd, step_graphs_trying hd]
    exact .unchanged (graphsTry_state ..)
  | @graphs _ _ _ known _ _ _ hd ha ih =>
    rw [heard_graphs hd ha, step_graphs hd ha]
    refine (ih scope).feedOr (fun row q state => ?_) fun _ _ => rfl
    rw [graphsRow_state]
    exact loadNames_told known state
  | within ih =>
    rw [heard_within, step_within]
    exact (ih scope).feed (fun _ _ _ => ⟨rfl, rfl⟩) fun _ _ => rfl
  | @names _ _ known _ _ hd ih =>
    rw [heard_names_nil hd, step_names_nil hd]
    refine (ih scope).feedOr (fun row q state => ?_) fun _ _ => rfl
    rw [namesRow_state]
    exact loadNames_told known state
  | table_nil hd =>
    rw [heard_table_nil hd, step_table_nil hd]
    exact .unchanged rfl
  | table_trying hd hrows =>
    rw [heard_table_trying hd hrows, step_table_trying hd hrows]
    exact .unchanged (tableTry_state ..)
  | table_idle hd hrows ih =>
    rw [heard_table_idle hd hrows, step_table_idle hd hrows]
    exact (ih scope).feed (fun _ _ _ => ⟨rfl, rfl⟩) fun _ _ => rfl
  | order hd ih =>
    rw [heard_order_gathering hd, step_order_gathering hd]
    exact (ih scope).feed (fun _ _ _ => .of_eq (orderRow_state ..)) fun _ _ => rfl
  | project hd ih =>
    rw [heard_project hd, step_project hd]
    exact (ih scope).feed (fun _ _ _ => ⟨rfl, rfl⟩) fun _ _ => rfl
  | distinct hd ih =>
    rw [heard_distinct hd, step_distinct hd]
    exact (ih scope).feed (fun _ _ _ => .of_eq (distinctRow_state ..)) fun _ _ => rfl
  | slice_zero hd =>
    rw [heard_slice_zero hd, step_slice_zero hd]
    exact .unchanged rfl
  | slice hd hzero ih =>
    rw [heard_slice hd hzero, step_slice hd hzero]
    exact (ih scope).feed (fun _ _ _ => .of_eq (sliceRow_state ..)) fun _ _ => rfl
  | concat_first hd ih =>
    rw [heard_concat_first hd, step_concat_first hd]
    exact (ih scope).feed (fun _ _ _ => ⟨rfl, rfl⟩) fun _ _ => rfl
  | concat_rest hd ih =>
    rw [heard_concat_rest hd, step_concat_rest hd]
    exact (ih scope).feed (fun _ _ _ => ⟨rfl, rfl⟩) fun _ _ => rfl

end TripleQuery
