import TripleQuery.Exec.Run

/-!
# The steps of each stage

One equation per stage and situation, for a stage that has not ended. A stage may have its answer at
hand (`Pipe.AtHand`); induction over a step (`Pipe.step_induction`) has one case for that and one
for each of the other equations. All later arguments about steps go through these.
-/

namespace TripleQuery

/-- A scan that asks its input for a row: it has seen that the query goes on, or sees it now. -/
def ScanState.Asks (state : RunState) : ScanState → Prop
  | .idle => state.cancelled = false
  | .asking => True
  | .reading .. => False

/-- A stage over graphs that asks its input for a row. -/
def GraphsState.Asks (state : RunState) : GraphsState → Prop
  | .idle => state.cancelled = false
  | .asking => True
  | .trying .. => False

/-- To ask the input is to ask it in every run that goes on. -/
theorem ScanState.Asks.running {at' : ScanState} {state state' : RunState} (h : at'.Asks state)
    (hs : state'.cancelled = false) : at'.Asks state' := by
  cases at' with
  | idle => exact hs
  | asking => trivial
  | reading => cases h

theorem GraphsState.Asks.running {at' : GraphsState} {state state' : RunState} (h : at'.Asks state)
    (hs : state'.cancelled = false) : at'.Asks state' := by
  cases at' with
  | idle => exact hs
  | asking => trivial
  | trying => cases h

namespace Pipe

variable {ctx : Context} {scope : Option SharedRows} {state : RunState} {phase : Phase}

/-- A stage that has ended stays as it is. -/
theorem step_spent {p : Pipe} (h : p.isSpent = true) :
    p.step ctx scope state = .quiet .done p state := by
  unfold step
  rw [if_pos h]

/-- Only what has run out or is closed has ended. -/
theorem isDone_of_isSpent {p : Pipe} (h : p.isSpent = true) : p.phase.isDone = true := by
  cases p with
  | tracked | share => cases h
  | _ => exact h

/-! ## Sources and scopes -/

section Sources

variable {rows : List Binding} {items : List ScriptItem} {input body : Pipe}

theorem step_bindings_nil (h : phase.isDone = false) :
    (bindings phase []).step ctx scope state = .quiet .done (.bindings .exhausted []) state :=
  if_neg (ne_true_of_eq_false h)

theorem step_bindings_cons {row : Binding} (h : phase.isDone = false) :
    (bindings phase (row :: rows)).step ctx scope state =
      .quiet (.yield row) (.bindings .active rows) state :=
  if_neg (ne_true_of_eq_false h)

theorem step_script_nil (h : phase.isDone = false) :
    (script phase []).step ctx scope state = .quiet .done (.script .exhausted []) state :=
  if_neg (ne_true_of_eq_false h)

theorem step_script_row {row : Binding} (h : phase.isDone = false) :
    (script phase (.row row :: items)).step ctx scope state =
      .quiet (.yield row) (.script .active items) state :=
  if_neg (ne_true_of_eq_false h)

theorem step_script_fail {e : ExecError} (h : phase.isDone = false) :
    (script phase (.fail e :: items)).step ctx scope state =
      .quiet (.fail e) (.script .active items) state :=
  if_neg (ne_true_of_eq_false h)

theorem step_tracked {id : String} {calling : Bool} :
    (tracked id calling input).step ctx scope state =
      { input.step ctx scope state with
        pipe := .tracked id (input.step ctx scope state).signal.isPending
          (input.step ctx scope state).pipe
        events := if calling then (input.step ctx scope state).events
          else .pulled id :: (input.step ctx scope state).events } :=
  if_neg Bool.false_ne_true

theorem step_replay {position : Nat} (h : phase.isDone = false) :
    (replay phase position).step ctx scope state = replayStep scope phase position state :=
  if_neg (ne_true_of_eq_false h)

theorem step_concatEnd (h : phase.isDone = false) :
    (concatEnd phase).step ctx scope state = .quiet .done (.concatEnd .exhausted) state :=
  if_neg (ne_true_of_eq_false h)

theorem step_share {shared : SharedRows} :
    (share shared input body).step ctx scope state =
      if (body.step ctx (some shared) state).events.any Event.isRelease then
        shareSettle shared input (body.step ctx (some shared) state)
      else if (body.step ctx (some shared) state).signal = .await then
        shareRead shared.clear (body.step ctx (some shared) state).pipe
          (body.step ctx (some shared) state).events
          (input.step ctx scope (body.step ctx (some shared) state).state)
      else
        { body.step ctx (some shared) state with
          pipe := .share shared.clear input (body.step ctx (some shared) state).pipe } :=
  if_neg Bool.false_ne_true

/-- A scope with nothing to report has nothing to clear. -/
theorem clear_of_clean {shared : SharedRows} (h : shared.fault = none) : shared.clear = shared := by
  unfold SharedRows.clear
  rw [← h]

end Sources

/-! ## Scans and graphs -/

section Scans

variable {input inner : Pipe} {pattern : TriplePattern} {slot : GraphSlot} {row : Binding}
  {var : Variable} {sub : Op} {known : Option (List Term)} {candidates : List Term}
  {name : TermPattern}

theorem step_scan_reading {items : List CursorItem} (h : phase.isDone = false) :
    (scan phase pattern slot (.reading row items) input).step ctx scope state =
      scanItem ctx pattern slot row items input state :=
  if_neg (ne_true_of_eq_false h)

theorem step_scan_asking (h : phase.isDone = false) :
    (scan phase pattern slot .asking input).step ctx scope state =
      scanStep ctx pattern slot (input.step ctx scope state) :=
  if_neg (ne_true_of_eq_false h)

theorem step_scan_idle (h : phase.isDone = false) :
    (scan phase pattern slot .idle input).step ctx scope state =
      match state.checkCancelled with
      | .error e => .quiet (.fail e) (.scan .active pattern slot .idle input) state
      | .ok () => scanStep ctx pattern slot (input.step ctx scope state) :=
  if_neg (ne_true_of_eq_false h)

theorem step_scan {at' : ScanState} (h : phase.isDone = false) (ha : at'.Asks state) :
    (scan phase pattern slot at' input).step ctx scope state =
      scanStep ctx pattern slot (input.step ctx scope state) := by
  cases at' with
  | idle => rw [step_scan_idle h, RunState.checkCancelled_of_running ha]
  | asking => exact step_scan_asking h
  | reading => cases ha

theorem step_scan_cancelled (h : phase.isDone = false) (hc : state.cancelled = true) :
    (scan phase pattern slot .idle input).step ctx scope state =
      .quiet (.fail .cancelled) (.scan .active pattern slot .idle input) state := by
  rw [step_scan_idle h, RunState.checkCancelled_of_cancelled hc]

theorem step_graphs_trying (h : phase.isDone = false) :
    (graphs phase var sub known (.trying row candidates) input).step ctx scope state =
      graphsTry ctx var sub known row candidates input state :=
  if_neg (ne_true_of_eq_false h)

theorem step_graphs_asking (h : phase.isDone = false) :
    (graphs phase var sub known .asking input).step ctx scope state =
      graphsStep ctx var sub known (input.step ctx scope state) :=
  if_neg (ne_true_of_eq_false h)

theorem step_graphs_idle (h : phase.isDone = false) :
    (graphs phase var sub known .idle input).step ctx scope state =
      match state.checkCancelled with
      | .error e => .quiet (.fail e) (.graphs .active var sub known .idle input) state
      | .ok () => graphsStep ctx var sub known (input.step ctx scope state) :=
  if_neg (ne_true_of_eq_false h)

theorem step_graphs {at' : GraphsState} (h : phase.isDone = false) (ha : at'.Asks state) :
    (graphs phase var sub known at' input).step ctx scope state =
      graphsStep ctx var sub known (input.step ctx scope state) := by
  cases at' with
  | idle => rw [step_graphs_idle h, RunState.checkCancelled_of_running ha]
  | asking => exact step_graphs_asking h
  | trying => cases ha

theorem step_graphs_cancelled (h : phase.isDone = false) (hc : state.cancelled = true) :
    (graphs phase var sub known .idle input).step ctx scope state =
      .quiet (.fail .cancelled) (.graphs .active var sub known .idle input) state := by
  rw [step_graphs_idle h, RunState.checkCancelled_of_cancelled hc]

theorem step_within :
    (within var sub known row candidates inner input).step ctx scope state =
      withinStep var sub known row candidates input (inner.step ctx scope state) :=
  if_neg Bool.false_ne_true

theorem step_names_cons {pending : List Binding} (h : phase.isDone = false) :
    (names phase name known (row :: pending) input).step ctx scope state =
      .quiet (.yield row) (.names .active name known pending input) state :=
  if_neg (ne_true_of_eq_false h)

theorem step_names_nil (h : phase.isDone = false) :
    (names phase name known [] input).step ctx scope state =
      namesStep ctx name known (input.step ctx scope state) :=
  if_neg (ne_true_of_eq_false h)

end Scans

/-! ## Joins -/

section Joins

variable {left right probe input : Pipe} {kind : JoinKind} {condition : Option Expr}
  {rows : List Binding} {row : Binding} {matched : Bool} {sub : Op} {graph : ActiveGraph}

theorem step_join_gathering {rows : Array Binding} (h : phase.isDone = false) :
    (join phase kind condition (.gathering rows) left right).step ctx scope state =
      joinRightStep ctx kind condition rows left (right.step ctx scope state) :=
  if_neg (ne_true_of_eq_false h)

theorem step_join_idle (h : phase.isDone = false) :
    (join phase kind condition (.idle rows) left right).step ctx scope state =
      joinLeftStep kind condition rows right (left.step ctx scope state) :=
  if_neg (ne_true_of_eq_false h)

theorem step_join_trying {untried : List Binding} (h : phase.isDone = false) :
    (join phase kind condition (.trying rows row untried matched) left right).step ctx scope state =
      joinTry kind condition rows row untried matched left right state :=
  if_neg (ne_true_of_eq_false h)

theorem step_optional (h : phase.isDone = false) :
    (optional phase sub condition graph input).step ctx scope state =
      optionalStep ctx sub condition graph (input.step ctx scope state) :=
  if_neg (ne_true_of_eq_false h)

theorem step_probing :
    (probing sub condition graph row matched probe input).step ctx scope state =
      probeStep sub condition graph row matched input (probe.step ctx scope state) :=
  if_neg Bool.false_ne_true

end Joins

/-! ## Stages with one input -/

section Rows

variable {input first rest : Pipe} {rows : List Binding} {row : Binding} {e : Expr}
  {vars : List Variable} {keys : List SortKey} {seen : List Binding} {limit skip : Nat}
  {remaining : Option Nat}

theorem step_filter (h : phase.isDone = false) :
    (filter phase e input).step ctx scope state = filterStep ctx e (input.step ctx scope state) :=
  if_neg (ne_true_of_eq_false h)

theorem step_project (h : phase.isDone = false) :
    (project phase vars input).step ctx scope state =
      projectStep vars (input.step ctx scope state) :=
  if_neg (ne_true_of_eq_false h)

theorem step_table_nil {at' : TableState} (h : phase.isDone = false) :
    (table phase [] at' input).step ctx scope state =
      Step.finish (.table .exhausted [] .idle) input state :=
  if_neg (ne_true_of_eq_false h)

theorem step_table_trying {untried : List Binding} (h : phase.isDone = false) (hrows : rows ≠ []) :
    (table phase rows (.trying row untried) input).step ctx scope state =
      tableTry rows row untried input state := by
  obtain ⟨first, rest, rfl⟩ := List.exists_cons_of_ne_nil hrows
  exact if_neg (ne_true_of_eq_false h)

theorem step_table_idle (h : phase.isDone = false) (hrows : rows ≠ []) :
    (table phase rows .idle input).step ctx scope state =
      tableStep rows (input.step ctx scope state) := by
  obtain ⟨first, rest, rfl⟩ := List.exists_cons_of_ne_nil hrows
  exact if_neg (ne_true_of_eq_false h)

theorem step_order_gathering {keyed : Array (List (Option Term) × Binding)}
    (h : phase.isDone = false) :
    (order phase keys (.gathering keyed) input).step ctx scope state =
      orderStep ctx keys keyed (input.step ctx scope state) :=
  if_neg (ne_true_of_eq_false h)

theorem step_order_nil (h : phase.isDone = false) :
    (order phase keys (.sorted []) input).step ctx scope state =
      .quiet .done (.order .exhausted keys (.sorted []) input) state :=
  if_neg (ne_true_of_eq_false h)

theorem step_order_cons (h : phase.isDone = false) :
    (order phase keys (.sorted (row :: rows)) input).step ctx scope state =
      .quiet (.yield row) (.order .active keys (.sorted rows) input) state :=
  if_neg (ne_true_of_eq_false h)

theorem step_distinct (h : phase.isDone = false) :
    (distinct phase seen limit input).step ctx scope state =
      distinctStep seen limit (input.step ctx scope state) :=
  if_neg (ne_true_of_eq_false h)

theorem step_slice_zero (h : phase.isDone = false) :
    (slice phase skip (some 0) input).step ctx scope state =
      Step.finish (.slice .exhausted skip (some 0)) input state :=
  if_neg (ne_true_of_eq_false h)

theorem step_slice (h : phase.isDone = false) (hr : remaining ≠ some 0) :
    (slice phase skip remaining input).step ctx scope state =
      sliceStep skip remaining (input.step ctx scope state) := by
  match remaining, hr with
  | none, _ => exact if_neg (ne_true_of_eq_false h)
  | some (n + 1), _ => exact if_neg (ne_true_of_eq_false h)

theorem step_concat_first (h : phase.isDone = false) :
    (concat phase false first rest).step ctx scope state =
      concatFirstStep rest (first.step ctx scope state) :=
  if_neg (ne_true_of_eq_false h)

theorem step_concat_rest (h : phase.isDone = false) :
    (concat phase true first rest).step ctx scope state =
      concatRestStep first (rest.step ctx scope state) :=
  if_neg (ne_true_of_eq_false h)

end Rows

/-! ## Answers at hand -/

/-- A stage has its answer at hand, and what it is afterwards: it has ended, it passes on what it
keeps, or it refuses to ask its input since the query is cancelled. Nothing else happens. -/
inductive AtHand (state : RunState) : Pipe → Signal → Pipe → Prop where
  | spent {p : Pipe} (h : p.isSpent = true) : AtHand state p .done p
  | bindings_nil {phase : Phase} (h : phase.isDone = false) :
    AtHand state (.bindings phase []) .done (.bindings .exhausted [])
  | bindings_cons {phase : Phase} {row : Binding} {rows : List Binding}
    (h : phase.isDone = false) :
    AtHand state (.bindings phase (row :: rows)) (.yield row) (.bindings .active rows)
  | script_nil {phase : Phase} (h : phase.isDone = false) :
    AtHand state (.script phase []) .done (.script .exhausted [])
  | script_row {phase : Phase} {row : Binding} {items : List ScriptItem}
    (h : phase.isDone = false) :
    AtHand state (.script phase (.row row :: items)) (.yield row) (.script .active items)
  | script_fail {phase : Phase} {e : ExecError} {items : List ScriptItem}
    (h : phase.isDone = false) :
    AtHand state (.script phase (.fail e :: items)) (.fail e) (.script .active items)
  | scan_cancelled {phase : Phase} {pattern : TriplePattern} {slot : GraphSlot} {input : Pipe}
    (h : phase.isDone = false) (hc : state.cancelled = true) :
    AtHand state (.scan phase pattern slot .idle input) (.fail .cancelled)
      (.scan .active pattern slot .idle input)
  | graphs_cancelled {phase : Phase} {var : Variable} {sub : Op} {known : Option (List Term)}
    {input : Pipe} (h : phase.isDone = false) (hc : state.cancelled = true) :
    AtHand state (.graphs phase var sub known .idle input) (.fail .cancelled)
      (.graphs .active var sub known .idle input)
  | names_cons {phase : Phase} {name : TermPattern} {known : Option (List Term)} {row : Binding}
    {pending : List Binding} {input : Pipe} (h : phase.isDone = false) :
    AtHand state (.names phase name known (row :: pending) input) (.yield row)
      (.names .active name known pending input)
  | order_nil {phase : Phase} {keys : List SortKey} {input : Pipe} (h : phase.isDone = false) :
    AtHand state (.order phase keys (.sorted []) input) .done
      (.order .exhausted keys (.sorted []) input)
  | order_cons {phase : Phase} {keys : List SortKey} {row : Binding} {rows : List Binding}
    {input : Pipe} (h : phase.isDone = false) :
    AtHand state (.order phase keys (.sorted (row :: rows)) input) (.yield row)
      (.order .active keys (.sorted rows) input)
  | concatEnd {phase : Phase} (h : phase.isDone = false) :
    AtHand state (.concatEnd phase) .done (.concatEnd .exhausted)

theorem AtHand.step_eq {p q : Pipe} {signal : Signal} (h : AtHand state p signal q) :
    p.step ctx scope state = .quiet signal q state := by
  cases h with
  | spent h => exact step_spent h
  | bindings_nil h => exact step_bindings_nil h
  | bindings_cons h => exact step_bindings_cons h
  | script_nil h => exact step_script_nil h
  | script_row h => exact step_script_row h
  | script_fail h => exact step_script_fail h
  | scan_cancelled h hc => exact step_scan_cancelled h hc
  | graphs_cancelled h hc => exact step_graphs_cancelled h hc
  | names_cons h => exact step_names_cons h
  | order_nil h => exact step_order_nil h
  | order_cons h => exact step_order_cons h
  | concatEnd h => exact step_concatEnd h

theorem AtHand.ne_await {p q : Pipe} {signal : Signal} (h : AtHand state p signal q) :
    signal ≠ .await := by
  cases h <;> nofun

/-! ## Induction over a step -/

/-- **Induction over a step.** Either the answer of the stage at the root is at hand, or the stage
goes on in one of the ways that have an equation above. Where it makes something of a step of an
input, that step is covered already. -/
theorem step_induction {motive : Pipe → RunState → Prop}
    (at_hand : ∀ {p signal q state}, AtHand state p signal q → motive p state)
    (tracked : ∀ {id : String} {calling : Bool} {input : Pipe} {state : RunState},
      motive input state → motive (.tracked id calling input) state)
    (replay : ∀ {phase : Phase} {position : Nat} {state : RunState}, phase.isDone = false →
      motive (.replay phase position) state)
    (share : ∀ {shared : SharedRows} {input body : Pipe} {state : RunState},
      (∀ state, motive input state) → motive body state →
      motive (.share shared input body) state)
    (scan_reading : ∀ {phase : Phase} {pattern : TriplePattern} {slot : GraphSlot} {row : Binding}
      {items : List CursorItem} {input : Pipe} {state : RunState}, phase.isDone = false →
      motive (.scan phase pattern slot (.reading row items) input) state)
    (scan : ∀ {phase : Phase} {pattern : TriplePattern} {slot : GraphSlot} {at' : ScanState}
      {input : Pipe} {state : RunState}, phase.isDone = false → at'.Asks state →
      motive input state → motive (.scan phase pattern slot at' input) state)
    (filter : ∀ {phase : Phase} {e : Expr} {input : Pipe} {state : RunState},
      phase.isDone = false → motive input state → motive (.filter phase e input) state)
    (join_gathering : ∀ {phase : Phase} {kind : JoinKind} {condition : Option Expr}
      {rows : Array Binding} {left right : Pipe} {state : RunState}, phase.isDone = false →
      motive right state → motive (.join phase kind condition (.gathering rows) left right) state)
    (join_idle : ∀ {phase : Phase} {kind : JoinKind} {condition : Option Expr}
      {rows : List Binding} {left right : Pipe} {state : RunState}, phase.isDone = false →
      motive left state → motive (.join phase kind condition (.idle rows) left right) state)
    (join_trying : ∀ {phase : Phase} {kind : JoinKind} {condition : Option Expr}
      {rows : List Binding} {row : Binding} {untried : List Binding} {matched : Bool}
      {left right : Pipe} {state : RunState}, phase.isDone = false →
      motive (.join phase kind condition (.trying rows row untried matched) left right) state)
    (optional : ∀ {phase : Phase} {sub : Op} {condition : Option Expr} {graph : ActiveGraph}
      {input : Pipe} {state : RunState}, phase.isDone = false → motive input state →
      motive (.optional phase sub condition graph input) state)
    (probing : ∀ {sub : Op} {condition : Option Expr} {graph : ActiveGraph} {row : Binding}
      {matched : Bool} {probe input : Pipe} {state : RunState}, motive probe state →
      motive (.probing sub condition graph row matched probe input) state)
    (graphs_trying : ∀ {phase : Phase} {var : Variable} {sub : Op} {known : Option (List Term)}
      {row : Binding} {candidates : List Term} {input : Pipe} {state : RunState},
      phase.isDone = false → motive (.graphs phase var sub known (.trying row candidates) input)
        state)
    (graphs : ∀ {phase : Phase} {var : Variable} {sub : Op} {known : Option (List Term)}
      {at' : GraphsState} {input : Pipe} {state : RunState}, phase.isDone = false →
      at'.Asks state → motive input state → motive (.graphs phase var sub known at' input) state)
    (within : ∀ {var : Variable} {sub : Op} {known : Option (List Term)} {row : Binding}
      {candidates : List Term} {inner input : Pipe} {state : RunState}, motive inner state →
      motive (.within var sub known row candidates inner input) state)
    (names : ∀ {phase : Phase} {name : TermPattern} {known : Option (List Term)} {input : Pipe}
      {state : RunState}, phase.isDone = false → motive input state →
      motive (.names phase name known [] input) state)
    (table_nil : ∀ {phase : Phase} {at' : TableState} {input : Pipe} {state : RunState},
      phase.isDone = false → motive (.table phase [] at' input) state)
    (table_trying : ∀ {phase : Phase} {rows : List Binding} {row : Binding}
      {untried : List Binding} {input : Pipe} {state : RunState}, phase.isDone = false →
      rows ≠ [] → motive (.table phase rows (.trying row untried) input) state)
    (table_idle : ∀ {phase : Phase} {rows : List Binding} {input : Pipe} {state : RunState},
      phase.isDone = false → rows ≠ [] → motive input state →
      motive (.table phase rows .idle input) state)
    (order : ∀ {phase : Phase} {keys : List SortKey}
      {keyed : Array (List (Option Term) × Binding)} {input : Pipe} {state : RunState},
      phase.isDone = false → motive input state →
      motive (.order phase keys (.gathering keyed) input) state)
    (project : ∀ {phase : Phase} {vars : List Variable} {input : Pipe} {state : RunState},
      phase.isDone = false → motive input state → motive (.project phase vars input) state)
    (distinct : ∀ {phase : Phase} {seen : List Binding} {limit : Nat} {input : Pipe}
      {state : RunState}, phase.isDone = false → motive input state →
      motive (.distinct phase seen limit input) state)
    (slice_zero : ∀ {phase : Phase} {skip : Nat} {input : Pipe} {state : RunState},
      phase.isDone = false → motive (.slice phase skip (some 0) input) state)
    (slice : ∀ {phase : Phase} {skip : Nat} {remaining : Option Nat} {input : Pipe}
      {state : RunState}, phase.isDone = false → remaining ≠ some 0 → motive input state →
      motive (.slice phase skip remaining input) state)
    (concat_first : ∀ {phase : Phase} {first rest : Pipe} {state : RunState},
      phase.isDone = false → motive first state → motive (.concat phase false first rest) state)
    (concat_rest : ∀ {phase : Phase} {first rest : Pipe} {state : RunState},
      phase.isDone = false → motive rest state → motive (.concat phase true first rest) state)
    (p : Pipe) (state : RunState) : motive p state := by
  have running {p : Pipe} {state : RunState} (h : p.isSpent = false → motive p state) :
      motive p state := by
    cases hspent : p.isSpent with
    | true => exact at_hand (.spent hspent)
    | false => exact h hspent
  induction p generalizing state with
  | tracked id calling input ih => exact tracked (ih state)
  | share shared input body ihi ihb => exact share ihi (ihb state)
  | probing sub condition graph row matched probe input ih => exact probing (ih state)
  | within var sub known row candidates inner input ih => exact within (ih state)
  | bindings phase rows =>
    refine running fun h => ?_
    cases rows with
    | nil => exact at_hand (.bindings_nil h)
    | cons => exact at_hand (.bindings_cons h)
  | script phase items =>
    refine running fun h => ?_
    match items with
    | [] => exact at_hand (.script_nil h)
    | .row _ :: _ => exact at_hand (.script_row h)
    | .fail _ :: _ => exact at_hand (.script_fail h)
  | replay phase position => exact running fun h => replay h
  | scan phase pattern slot at' input ih =>
    refine running fun h => ?_
    cases at' with
    | reading => exact scan_reading h
    | asking => exact scan h trivial (ih state)
    | idle =>
      cases hc : state.cancelled with
      | true => exact at_hand (.scan_cancelled h hc)
      | false => exact scan h hc (ih state)
  | filter phase e input ih => exact running fun h => filter h (ih state)
  | join phase kind condition at' left right ihl ihr =>
    refine running fun h => ?_
    cases at' with
    | gathering => exact join_gathering h (ihr state)
    | idle => exact join_idle h (ihl state)
    | trying => exact join_trying h
  | optional phase sub condition graph input ih => exact running fun h => optional h (ih state)
  | graphs phase var sub known at' input ih =>
    refine running fun h => ?_
    cases at' with
    | trying => exact graphs_trying h
    | asking => exact graphs h trivial (ih state)
    | idle =>
      cases hc : state.cancelled with
      | true => exact at_hand (.graphs_cancelled h hc)
      | false => exact graphs h hc (ih state)
  | names phase name known pending input ih =>
    refine running fun h => ?_
    cases pending with
    | nil => exact names h (ih state)
    | cons => exact at_hand (.names_cons h)
  | table phase rows at' input ih =>
    refine running fun h => ?_
    by_cases hrows : rows = []
    · subst hrows
      exact table_nil h
    · cases at' with
      | idle => exact table_idle h hrows (ih state)
      | trying => exact table_trying h hrows
  | order phase keys at' input ih =>
    refine running fun h => ?_
    match at' with
    | .gathering _ => exact order h (ih state)
    | .sorted [] => exact at_hand (.order_nil h)
    | .sorted (_ :: _) => exact at_hand (.order_cons h)
  | project phase vars input ih => exact running fun h => project h (ih state)
  | distinct phase seen limit input ih => exact running fun h => distinct h (ih state)
  | slice phase skip remaining input ih =>
    refine running fun h => ?_
    by_cases hzero : remaining = some 0
    · subst hzero
      exact slice_zero h
    · exact slice h hzero (ih state)
  | concat phase dry first rest ihf ihr =>
    refine running fun h => ?_
    cases dry with
    | false => exact concat_first h (ihf state)
    | true => exact concat_rest h (ihr state)
  | concatEnd phase => exact running fun h => at_hand (.concatEnd h)

end Pipe

end TripleQuery
