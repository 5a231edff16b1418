import TripleQuery.Proofs.Pipe.Step

/-!
# What a run hears

A run learns from its dataset whether a scan could be opened, what the scan comes to next, and
whether the graphs could be listed. `Pipe.heard` are the answers that a step of a pipeline gets, in
order; it goes along with `Pipe.step`, stage by stage.
-/

namespace TripleQuery

/-- An answer of the dataset, as far as it is heard at once: of a list of quads one item at a
time. -/
inductive Heard where
  | opening (cancels : Bool) (failure : Option DatasetError)
  | item (next : Option CursorItem)
  | names (cancels : Bool) (failure : Option DatasetError)
deriving DecidableEq

/-- The failure that an answer is, if it is one. -/
def Heard.failure? : Heard → Option DatasetError
  | opening _ failure | names _ failure => failure
  | item (some (.fault e)) => some e
  | item _ => none

/-- The failure that a reply is, if it is one. -/
def Reply.failure? {α : Type} (r : Reply α) : Option DatasetError :=
  match r.result with
  | .ok _ => none
  | .error e => some e

/-- What is heard when a scan is opened for a row. -/
def Context.hearScan (ctx : Context) (pattern : TriplePattern) (slot : GraphSlot) (row : Binding)
    (state : RunState) : List Heard :=
  let reply := ctx.dataset.scan state.scans (.ofPattern pattern slot row)
  [.opening reply.cancels reply.failure?]

/-- What is heard when the graph names are needed. -/
def Context.hearNames (ctx : Context) (known : Option (List Term)) (state : RunState) :
    List Heard :=
  match known with
  | some _ => []
  | none =>
    let reply := ctx.dataset.graphNames state.listings
    [.names reply.cancels reply.failure?]

/-- What a stage hears that asks the dataset about a row of its input. -/
def Step.asks (s : Step) (ask : Binding → RunState → List Heard) : List Heard :=
  match s.signal with
  | .yield row => ask row s.state
  | _ => []

theorem Step.asks_none (s : Step) : s.asks (fun _ _ => []) = [] := by
  unfold asks
  split <;> rfl

/-- The answers that a step of the pipeline gets from the dataset. -/
def Pipe.heard (ctx : Context) (scope : Option SharedRows) (p : Pipe) (state : RunState) :
    List Heard :=
  if p.isSpent then []
  else match p with
  | .bindings .. | .script .. | .replay .. | .concatEnd _ => []
  | .tracked _ _ input | .filter _ _ input | .optional _ _ _ _ input | .project _ _ input
  | .distinct _ _ _ input => input.heard ctx scope state
  | .share shared input body =>
    let s := body.step ctx (some shared) state
    body.heard ctx (some shared) state ++
      if s.events.any Event.isRelease then []
      else if s.signal = .await then input.heard ctx scope s.state
      else []
  | .scan _ _ _ (.reading _ items) _ => [.item items.head?]
  | .scan _ pattern slot .idle input =>
    if state.cancelled then []
    else input.heard ctx scope state ++
      (input.step ctx scope state).asks (ctx.hearScan pattern slot)
  | .scan _ pattern slot .asking input =>
    input.heard ctx scope state ++ (input.step ctx scope state).asks (ctx.hearScan pattern slot)
  | .join _ _ _ (.gathering _) _ right => right.heard ctx scope state
  | .join _ _ _ (.idle _) left _ => left.heard ctx scope state
  | .join _ _ _ (.trying ..) _ _ => []
  | .probing _ _ _ _ _ probe _ => probe.heard ctx scope state
  | .graphs _ _ _ _ (.trying ..) _ => []
  | .graphs _ _ _ known .idle input =>
    if state.cancelled then []
    else input.heard ctx scope state ++
      (input.step ctx scope state).asks fun _ => ctx.hearNames known
  | .graphs _ _ _ known .asking input =>
    input.heard ctx scope state ++ (input.step ctx scope state).asks fun _ => ctx.hearNames known
  | .within _ _ _ _ _ inner _ => inner.heard ctx scope state
  | .names _ _ _ (_ :: _) _ => []
  | .names _ _ known [] input =>
    input.heard ctx scope state ++ (input.step ctx scope state).asks fun _ => ctx.hearNames known
  | .table _ [] _ _ | .table _ _ (.trying ..) _ => []
  | .table _ _ .idle input => input.heard ctx scope state
  | .order _ _ (.gathering _) input => input.heard ctx scope state
  | .order _ _ (.sorted _) _ => []
  | .slice _ _ (some 0) _ => []
  | .slice _ _ _ input => input.heard ctx scope state
  | .concat _ false first _ => first.heard ctx scope state
  | .concat _ true _ rest => rest.heard ctx scope state

namespace Pipe

variable {ctx : Context} {scope : Option SharedRows} {state : RunState} {phase : Phase}
  {input : Pipe}

/-- A stage that has ended hears nothing. -/
theorem heard_spent {p : Pipe} (h : p.isSpent = true) : p.heard ctx scope state = [] := by
  unfold heard
  rw [if_pos h]

/-! ## One equation per stage -/

theorem heard_bindings {rows : List Binding} :
    (bindings phase rows).heard ctx scope state = [] :=
  ite_self []

theorem heard_script {items : List ScriptItem} :
    (script phase items).heard ctx scope state = [] :=
  ite_self []

theorem heard_replay {position : Nat} : (replay phase position).heard ctx scope state = [] :=
  ite_self []

theorem heard_concatEnd : (concatEnd phase).heard ctx scope state = [] :=
  ite_self []

theorem heard_tracked {id : String} {calling : Bool} :
    (tracked id calling input).heard ctx scope state = input.heard ctx scope state :=
  if_neg Bool.false_ne_true

theorem heard_share {shared : SharedRows} {body : Pipe} :
    (share shared input body).heard ctx scope state = body.heard ctx (some shared) state ++
      if (body.step ctx (some shared) state).events.any Event.isRelease then []
      else if (body.step ctx (some shared) state).signal = .await then
        input.heard ctx scope (body.step ctx (some shared) state).state
      else [] :=
  if_neg Bool.false_ne_true

theorem heard_filter {e : Expr} (h : phase.isDone = false) :
    (filter phase e input).heard ctx scope state = input.heard ctx scope state :=
  if_neg (ne_true_of_eq_false h)

theorem heard_project {vars : List Variable} (h : phase.isDone = false) :
    (project phase vars input).heard ctx scope state = input.heard ctx scope state :=
  if_neg (ne_true_of_eq_false h)

theorem heard_distinct {seen : List Binding} {limit : Nat} (h : phase.isDone = false) :
    (distinct phase seen limit input).heard ctx scope state = input.heard ctx scope state :=
  if_neg (ne_true_of_eq_false h)

section Scans

variable {pattern : TriplePattern} {slot : GraphSlot} {var : Variable} {sub : Op}
  {known : Option (List Term)} {row : Binding} {name : TermPattern}

theorem heard_scan_reading {items : List CursorItem} (h : phase.isDone = false) :
    (scan phase pattern slot (.reading row items) input).heard ctx scope state =
      [.item items.head?] :=
  if_neg (ne_true_of_eq_false h)

theorem heard_scan {at' : ScanState} (h : phase.isDone = false) (ha : at'.Asks state) :
    (scan phase pattern slot at' input).heard ctx scope state =
      input.heard ctx scope state ++
        (input.step ctx scope state).asks (ctx.hearScan pattern slot) := by
  cases at' with
  | idle => exact (if_neg (ne_true_of_eq_false h)).trans (if_neg (ne_true_of_eq_false ha))
  | asking => exact if_neg (ne_true_of_eq_false h)
  | reading => cases ha

theorem heard_scan_cancelled (h : phase.isDone = false) (hc : state.cancelled = true) :
    (scan phase pattern slot .idle input).heard ctx scope state = [] :=
  (if_neg (ne_true_of_eq_false h)).trans (if_pos hc)

theorem heard_graphs_trying {candidates : List Term} (h : phase.isDone = false) :
    (graphs phase var sub known (.trying row candidates) input).heard ctx scope state = [] :=
  if_neg (ne_true_of_eq_false h)

theorem heard_graphs {at' : GraphsState} (h : phase.isDone = false) (ha : at'.Asks state) :
    (graphs phase var sub known at' input).heard ctx scope state =
      input.heard ctx scope state ++
        (input.step ctx scope state).asks fun _ => ctx.hearNames known := by
  cases at' with
  | idle => exact (if_neg (ne_true_of_eq_false h)).trans (if_neg (ne_true_of_eq_false ha))
  | asking => exact if_neg (ne_true_of_eq_false h)
  | trying => cases ha

theorem heard_graphs_cancelled (h : phase.isDone = false) (hc : state.cancelled = true) :
    (graphs phase var sub known .idle input).heard ctx scope state = [] :=
  (if_neg (ne_true_of_eq_false h)).trans (if_pos hc)

theorem heard_within {candidates : List Term} {inner : Pipe} :
    (within var sub known row candidates inner input).heard ctx scope state =
      inner.heard ctx scope state :=
  if_neg Bool.false_ne_true

theorem heard_names_cons {pending : List Binding} (h : phase.isDone = false) :
    (names phase name known (row :: pending) input).heard ctx scope state = [] :=
  if_neg (ne_true_of_eq_false h)

theorem heard_names_nil (h : phase.isDone = false) :
    (names phase name known [] input).heard ctx scope state =
      input.heard ctx scope state ++
        (input.step ctx scope state).asks fun _ => ctx.hearNames known :=
  if_neg (ne_true_of_eq_false h)

end Scans

section Joins

variable {kind : JoinKind} {condition : Option Expr} {left right : Pipe} {rows : List Binding}
  {row : Binding} {matched : Bool} {sub : Op} {graph : ActiveGraph}

theorem heard_join_gathering {rows : Array Binding} (h : phase.isDone = false) :
    (join phase kind condition (.gathering rows) left right).heard ctx scope state =
      right.heard ctx scope state :=
  if_neg (ne_true_of_eq_false h)

theorem heard_join_idle (h : phase.isDone = false) :
    (join phase kind condition (.idle rows) left right).heard ctx scope state =
      left.heard ctx scope state :=
  if_neg (ne_true_of_eq_false h)

theorem heard_join_trying {untried : List Binding} (h : phase.isDone = false) :
    (join phase kind condition (.trying rows row untried matched) left right).heard ctx scope
      state = [] :=
  if_neg (ne_true_of_eq_false h)

theorem heard_optional (h : phase.isDone = false) :
    (optional phase sub condition graph input).heard ctx scope state =
      input.heard ctx scope state :=
  if_neg (ne_true_of_eq_false h)

theorem heard_probing {probe : Pipe} :
    (probing sub condition graph row matched probe input).heard ctx scope state =
      probe.heard ctx scope state :=
  if_neg Bool.false_ne_true

end Joins

section Rows

variable {rows : List Binding} {row : Binding} {keys : List SortKey} {skip : Nat}
  {remaining : Option Nat} {first rest : Pipe}

theorem heard_table_nil {at' : TableState} (h : phase.isDone = false) :
    (table phase [] at' input).heard ctx scope state = [] :=
  if_neg (ne_true_of_eq_false h)

theorem heard_table_trying {untried : List Binding} (h : phase.isDone = false) (hrows : rows ≠ []) :
    (table phase rows (.trying row untried) input).heard ctx scope state = [] := by
  obtain ⟨first, rest, rfl⟩ := List.exists_cons_of_ne_nil hrows
  exact if_neg (ne_true_of_eq_false h)

theorem heard_table_idle (h : phase.isDone = false) (hrows : rows ≠ []) :
    (table phase rows .idle input).heard ctx scope state = input.heard ctx scope state := by
  obtain ⟨first, rest, rfl⟩ := List.exists_cons_of_ne_nil hrows
  exact if_neg (ne_true_of_eq_false h)

theorem heard_order_gathering {keyed : Array (List (Option Term) × Binding)}
    (h : phase.isDone = false) :
    (order phase keys (.gathering keyed) input).heard ctx scope state =
      input.heard ctx scope state :=
  if_neg (ne_true_of_eq_false h)

theorem heard_order_sorted (h : phase.isDone = false) :
    (order phase keys (.sorted rows) input).heard ctx scope state = [] :=
  if_neg (ne_true_of_eq_false h)

theorem heard_slice_zero (h : phase.isDone = false) :
    (slice phase skip (some 0) input).heard ctx scope state = [] :=
  if_neg (ne_true_of_eq_false h)

theorem heard_slice (h : phase.isDone = false) (hr : remaining ≠ some 0) :
    (slice phase skip remaining input).heard ctx scope state = input.heard ctx scope state := by
  match remaining, hr with
  | none, _ => exact if_neg (ne_true_of_eq_false h)
  | some (n + 1), _ => exact if_neg (ne_true_of_eq_false h)

theorem heard_concat_first (h : phase.isDone = false) :
    (concat phase false first rest).heard ctx scope state = first.heard ctx scope state :=
  if_neg (ne_true_of_eq_false h)

theorem heard_concat_rest (h : phase.isDone = false) :
    (concat phase true first rest).heard ctx scope state = rest.heard ctx scope state :=
  if_neg (ne_true_of_eq_false h)

end Rows

/-- A stage with its answer at hand hears nothing. -/
theorem AtHand.heard_eq {p q : Pipe} {signal : Signal} (h : AtHand state p signal q) :
    p.heard ctx scope state = [] := by
  cases h with
  | spent h => exact heard_spent h
  | bindings_nil | bindings_cons => exact heard_bindings
  | script_nil | script_row | script_fail => exact heard_script
  | scan_cancelled h hc => exact heard_scan_cancelled h hc
  | graphs_cancelled h hc => exact heard_graphs_cancelled h hc
  | names_cons h => exact heard_names_cons h
  | order_nil h | order_cons h => exact heard_order_sorted h
  | concatEnd => exact heard_concatEnd

end Pipe

end TripleQuery
