import TripleQuery.Proofs.Flow.Op
import TripleQuery.Proofs.Pipe.Runs

/-!
# Runs of each stage

For each kind of stage, what it comes to is the operation on flows that stands for it, applied to
what its inputs come to.
-/

namespace TripleQuery

/-- What a stage may know of the graph names of a source: nothing, or what they are. -/
def Source.Knows (src : Source) (names : Option (List Term)) : Prop :=
  names = none ∨ names = some src.names

/-! ## Counters do not cancel -/

@[simp] theorem RunState.recordFiltered_cancelled (s : RunState) (c : Config) (n : UInt64) :
    (s.recordFiltered c n).cancelled = s.cancelled := by
  unfold recordFiltered
  split <;> rfl

@[simp] theorem RunState.recordScanned_cancelled (s : RunState) (c : Config) (n : UInt64) :
    (s.recordScanned c n).cancelled = s.cancelled := by
  unfold recordScanned
  split <;> rfl

namespace Runs

variable {ctx : Context} {all : Option Flow} {known : Nat} {phase : Phase} {p : Pipe} {f : Flow}

/-! ## Lists of things -/

/-- A stage that goes through a list, with a row or none for each item. -/
theorem listing {α : Type} (trying : List α → Pipe) (k : α → Option Binding)
    (hnil : Runs ctx all known (trying []) f)
    (hcons : ∀ x xs, Takes ctx all known (trying (x :: xs)) ((k x).elim .skip .yield) (trying xs))
    (xs : List α) : Runs ctx all known (trying xs) (.ofRows (xs.filterMap k) ++ f) := by
  induction xs with
  | nil => exact hnil
  | cons x xs ih =>
    have hx := hcons x xs
    rw [List.filterMap_cons]
    cases hk : k x with
    | none =>
      rw [hk] at hx
      exact .skip hx ih
    | some b =>
      rw [hk] at hx
      exact .yield hx ih

theorem bindings (rows : List Binding) (h : phase.isDone = false) :
    Runs ctx all known (.bindings phase rows) (.ofRows rows) := by
  induction rows generalizing phase with
  | nil =>
    refine .done (q := .bindings .exhausted []) fun scope state _ hs => ?_
    rw [Pipe.step_bindings_nil h]
    exact does_quiet hs
  | cons b rows ih =>
    refine .yield (q := .bindings .active rows) (fun scope state _ hs => ?_) (ih rfl)
    rw [Pipe.step_bindings_cons h]
    exact does_quiet hs

/-! ## Filters and projections -/

/-- A filter as a stage. -/
def filterStage (ctx : Context) (e : Expr) : Stage where
  hold := .filter .active e
  drop := .filter .active e
  onRow := filterRow ctx e
  onEnd := Step.finish (.filter .exhausted e)

theorem filterStage_enters (e : Expr) (phase : Phase) (h : phase.isDone = false) :
    (filterStage ctx e).Enters ctx (.filter phase e) :=
  fun _ _ _ _ => Pipe.step_filter h

theorem filter (e : Expr) (hp : Runs ctx all known p f) (h : phase.isDone = false) :
    Runs ctx all known (.filter phase e p) (f.filter e.admits) := by
  refine hp.binds (filterStage ctx e) (fun b => .ofRows (if e.admits b then [b] else []))
    (filterStage_enters e _ rfl) (filterStage_enters e .active rfl)
    (fun _ => Nat.le_refl _) (fun b q g known hq => ?_)
    (fun q known => .done fun state hs => ⟨rfl, rfl, hs⟩) (filterStage_enters e phase h)
  by_cases ha : e.admits b = true
  · rw [if_pos ha]
    refine .yield (fun state hs => ?_) hq
    show Does (filterRow ctx e b q state) _ _
    rw [filterRow, if_pos ha]
    exact ⟨rfl, rfl, hs⟩
  · rw [if_neg ha]
    refine .skip (fun state hs => ?_) hq
    show Does (filterRow ctx e b q state) _ _
    rw [filterRow, if_neg ha]
    exact ⟨rfl, rfl, (RunState.recordFiltered_cancelled ..).trans hs⟩

/-- A projection as a stage. -/
def projectStage (vars : List Variable) : Stage where
  hold := .project .active vars
  drop := .project .active vars
  onRow row input := .quiet (.yield (row.project vars)) (.project .active vars input)
  onEnd := Step.finish (.project .exhausted vars)

theorem projectStage_enters (vars : List Variable) (phase : Phase) (h : phase.isDone = false) :
    (projectStage vars).Enters ctx (.project phase vars) :=
  fun _ _ _ _ => Pipe.step_project h

theorem project (vars : List Variable) (hp : Runs ctx all known p f) (h : phase.isDone = false) :
    Runs ctx all known (.project phase vars p) (f.expand fun row => [row.project vars]) :=
  hp.binds (projectStage vars) (fun row => .ofRows [row.project vars])
    (projectStage_enters vars _ rfl) (projectStage_enters vars .active rfl) (fun _ => Nat.le_refl _)
    (fun _ _ _ _ hq => .yield (fun _ hs => does_quiet hs) hq)
    (fun _ _ => .done fun _ hs => ⟨rfl, rfl, hs⟩) (projectStage_enters vars phase h)

/-! ## Scans -/

/-- A scan as a stage. While it asks for a row it has seen already that the query goes on. -/
def scanStage (ctx : Context) (pattern : TriplePattern) (slot : GraphSlot) : Stage where
  hold := .scan .active pattern slot .asking
  drop := .scan .active pattern slot .idle
  onRow := scanRow ctx pattern slot
  onEnd := Step.finish (.scan .exhausted pattern slot .idle)

theorem scanStage_asking (pattern : TriplePattern) (slot : GraphSlot) :
    (scanStage ctx pattern slot).Enters ctx (.scan .active pattern slot .asking) :=
  fun _ _ _ _ => Pipe.step_scan_asking rfl

theorem scanStage_idle (pattern : TriplePattern) (slot : GraphSlot) (phase : Phase)
    (h : phase.isDone = false) :
    (scanStage ctx pattern slot).Enters ctx (.scan phase pattern slot .idle) :=
  fun _ _ _ hs => Pipe.step_scan h hs

theorem scan_reading (pattern : TriplePattern) (slot : GraphSlot) (row : Binding)
    (quads : List Quad) (hp : Runs ctx all known (.scan .active pattern slot .idle p) f) :
    Runs ctx all known (.scan .active pattern slot (.reading row (quads.map .quad)) p)
      (.ofRows (quads.filterMap (bindQuad pattern slot row)) ++ f) := by
  refine listing (fun quads => .scan .active pattern slot (.reading row (quads.map .quad)) p) _ ?_
    (fun q quads => ?_) quads
  · refine .skip (fun scope state _ hs => ?_) hp
    rw [Pipe.step_scan_reading rfl]
    exact does_quiet hs
  · intro scope state _ hs
    rw [Pipe.step_scan_reading rfl]
    exact does_quiet ((RunState.recordScanned_cancelled ..).trans hs)

variable {src : Source}

/-- A question to a source that always answers. -/
theorem openScan_source (hsrc : ctx.dataset = src.dataset) (r : ScanRequest) (state : RunState) :
    ctx.openScan r state =
      (.ok ((src.quads r).map .quad), { state with scans := state.scans + 1 }) := by
  unfold Context.openScan
  rw [hsrc]
  rfl

theorem scan (hsrc : ctx.dataset = src.dataset) (pattern : TriplePattern) (slot : GraphSlot)
    (hp : Runs ctx all known p f) (h : phase.isDone = false) :
    Runs ctx all known (.scan phase pattern slot .idle p)
      (f.expand (src.scanRows pattern slot)) := by
  refine hp.binds (scanStage ctx pattern slot) (fun row => .ofRows (src.scanRows pattern slot row))
    (scanStage_asking pattern slot) (scanStage_idle pattern slot .active rfl)
    (fun _ => Nat.le_refl _) (fun b q g known hq => ?_)
    (fun _ _ => .done fun _ hs => ⟨rfl, rfl, hs⟩) (scanStage_idle pattern slot phase h)
  refine .skip (fun state hs => ?_) (scan_reading pattern slot b _ hq)
  show Does (scanRow ctx pattern slot b q state) _ _
  unfold scanRow
  simp only [openScan_source hsrc]
  exact ⟨rfl, rfl, hs⟩

/-! ## Graph names and tables -/

/-- A source always lists its graphs. -/
theorem loadNames_source (hsrc : ctx.dataset = src.dataset) {names : Option (List Term)}
    (h : src.Knows names) (state : RunState) : ∃ events state',
      ctx.loadNames names state = (.ok src.names, events, state') ∧
        state'.cancelled = state.cancelled := by
  rcases h with rfl | rfl
  · refine ⟨[.listing], { state with listings := state.listings + 1 }, ?_, rfl⟩
    unfold Context.loadNames
    rw [hsrc]
    rfl
  · exact ⟨[], state, rfl, rfl⟩

/-- A listing of graph names as a stage. -/
def namesStage (ctx : Context) (name : TermPattern) (names : Option (List Term)) : Stage where
  hold := .names .active name names []
  drop := .names .active name names []
  onRow := namesRow ctx name names
  onEnd := Step.finish (.names .exhausted name names [])

theorem namesStage_enters (name : TermPattern) (names : Option (List Term)) (phase : Phase)
    (h : phase.isDone = false) :
    (namesStage ctx name names).Enters ctx (.names phase name names []) :=
  fun _ _ _ _ => Pipe.step_names_nil h

theorem names (hsrc : ctx.dataset = src.dataset) (name : TermPattern)
    (hp : Runs ctx all known p f) (h : phase.isDone = false) :
    Runs ctx all known (.names phase name none [] p) (f.expand (nameRows name src.names)) := by
  refine hp.through (fun names : { names // src.Knows names } => namesStage ctx name names)
    (fun _ f => f.expand (nameRows name src.names))
    (fun names => namesStage_enters name names _ rfl) (fun _ _ => Nat.le_refl _) (fun _ _ => rfl)
    (fun names b q f known ih => ?_) (fun names q known => .done fun state hs => ⟨rfl, rfl, hs⟩)
    ⟨none, .inl rfl⟩ (namesStage_enters name none phase h)
  have hq := ih ⟨some src.names, .inr rfl⟩ _ (namesStage_enters name (some src.names) .active rfl)
  have hlist := listing (fun rows => .names .active name (some src.names) rows q) some hq
    (fun row rows scope state _ hs => by
      rw [Pipe.step_names_cons rfl]
      exact does_quiet hs)
    (nameRows name src.names b)
  rw [List.filterMap_some] at hlist
  refine .skip (fun state hs => ?_) hlist
  obtain ⟨events, state', hload, hs'⟩ := loadNames_source hsrc names.2 state
  show Does (namesRow ctx name names b q state) _ _
  unfold namesRow
  simp only [hload]
  exact ⟨rfl, rfl, hs'.trans hs⟩

/-- A table as a stage. -/
def tableStage (rows : List Binding) : Stage where
  hold := .table .active rows .idle
  drop := .table .active rows .idle
  onRow row input := .quiet .skip (.table .active rows (.trying row rows) input)
  onEnd := Step.finish (.table .exhausted rows .idle)

theorem tableStage_enters {rows : List Binding} (hrows : rows ≠ []) (phase : Phase)
    (h : phase.isDone = false) : (tableStage rows).Enters ctx (.table phase rows .idle) :=
  fun _ _ _ _ => Pipe.step_table_idle h hrows

theorem table_trying {rows : List Binding} (hrows : rows ≠ []) (row : Binding)
    (hp : Runs ctx all known (.table .active rows .idle p) f) (untried : List Binding) :
    Runs ctx all known (.table .active rows (.trying row untried) p)
      (.ofRows (mergeInto row untried) ++ f) := by
  refine listing (fun untried => .table .active rows (.trying row untried) p) row.union? ?_
    (fun other untried scope state _ hs => ?_) untried
  · refine .skip (fun scope state _ hs => ?_) hp
    rw [Pipe.step_table_trying rfl hrows]
    exact does_quiet hs
  · rw [Pipe.step_table_trying rfl hrows]
    exact does_quiet hs

theorem table (rows : List Binding) (hp : Runs ctx all known p f) (h : phase.isDone = false) :
    Runs ctx all known (.table phase rows .idle p)
      (if rows.isEmpty then .done else f.expand fun row => mergeInto row rows) := by
  by_cases hrows : rows = []
  · subst hrows
    refine .done (q := .table .exhausted [] .idle p.close.1) fun scope state _ hs => ?_
    rw [Pipe.step_table_nil h]
    exact ⟨rfl, rfl, hs⟩
  · rw [if_neg fun he => hrows (List.isEmpty_iff.1 he)]
    exact hp.binds (tableStage rows) (fun row => .ofRows (mergeInto row rows))
      (tableStage_enters hrows _ rfl) (tableStage_enters hrows .active rfl) (fun _ => Nat.le_refl _)
      (fun b q g known hq => .skip (fun _ hs => does_quiet hs) (table_trying hrows b hq rows))
      (fun _ _ => .done fun _ hs => ⟨rfl, rfl, hs⟩) (tableStage_enters hrows phase h)

/-! ## Slices and duplicates -/

/-- A slice as a stage. -/
def sliceStage (skip : Nat) (remaining : Option Nat) : Stage where
  hold := .slice .active skip remaining
  drop := .slice .active skip remaining
  onRow := sliceRow skip remaining
  onEnd := Step.finish (.slice .exhausted skip remaining)

theorem sliceStage_enters (skip : Nat) {remaining : Option Nat} (hr : remaining ≠ some 0)
    (phase : Phase) (h : phase.isDone = false) :
    (sliceStage skip remaining).Enters ctx (.slice phase skip remaining) :=
  fun _ _ _ _ => Pipe.step_slice h hr

/-- A slice that has given out all its rows has ended. -/
theorem slice_zero (skip : Nat) (h : phase.isDone = false) :
    Runs ctx all known (.slice phase skip (some 0) p) .done := by
  refine .done (q := .slice .exhausted skip (some 0) p.close.1) fun scope state _ hs => ?_
  rw [Pipe.step_slice_zero h]
  exact ⟨rfl, rfl, hs⟩

/-- A slice that has rows left to give out. -/
theorem slice_open (hp : Runs ctx all known p f) (skip : Nat) {remaining : Option Nat}
    (hr : remaining ≠ some 0) (h : phase.isDone = false) :
    Runs ctx all known (.slice phase skip remaining p) (f.slice skip remaining) := by
  refine hp.through (fun at' : Nat × { r : Option Nat // r ≠ some 0 } => sliceStage at'.1 at'.2)
    (fun at' f => f.slice at'.1 at'.2) (fun at' => sliceStage_enters at'.1 at'.2.2 _ rfl)
    (fun _ _ => Nat.le_refl _) (fun at' e => ?_) (fun at' b q f known ih => ?_)
    (fun at' q known => ?_) (skip, ⟨remaining, hr⟩) (sliceStage_enters skip hr phase h)
  · obtain ⟨skip, remaining, hr⟩ := at'
    exact Flow.slice_fail hr
  · obtain ⟨skip, remaining, hr⟩ := at'
    have hq (skip : Nat) {remaining : Option Nat} (hr : remaining ≠ some 0) :
        Runs ctx all known (.slice .active skip remaining q) (f.slice skip remaining) :=
      ih (skip, ⟨remaining, hr⟩) _ (sliceStage_enters skip hr .active rfl)
    cases skip with
    | succ skip =>
      show Continues _ _ _ (sliceRow (skip + 1) remaining b q) ((Flow.row b f).slice _ remaining)
      rw [Flow.slice_succ_row hr]
      exact .skip (fun _ hs => does_quiet hs) (hq skip hr)
    | zero =>
      match remaining, hr with
      | none, _ => exact .yield (fun _ hs => does_quiet hs) (hq 0 (nomatch ·))
      | some 1, _ =>
        show Continues _ _ _ _ (.row b (f.slice 0 (some 0)))
        rw [Flow.slice_zero]
        exact .yield (fun _ hs => ⟨rfl, rfl, hs⟩) (slice_zero 0 rfl)
      | some (n + 2), _ =>
        have hleft : some (n + 1) ≠ some 0 := by simp
        exact .yield (fun _ hs => does_quiet hs) (hq 0 hleft)
  · obtain ⟨skip, remaining, hr⟩ := at'
    show Continues _ _ _ _ (Flow.done.slice skip remaining)
    rw [Flow.slice_done]
    exact .done fun _ hs => ⟨rfl, rfl, hs⟩

theorem slice (hp : Runs ctx all known p f) (skip : Nat) (remaining : Option Nat)
    (h : phase.isDone = false) :
    Runs ctx all known (.slice phase skip remaining p) (f.slice skip remaining) := by
  by_cases hr : remaining = some 0
  · rw [hr, Flow.slice_zero]
    exact slice_zero skip h
  · exact slice_open hp skip hr h

/-- A removal of duplicates as a stage. -/
def distinctStage (limit : Nat) (seen : List Binding) : Stage where
  hold := .distinct .active seen limit
  drop := .distinct .active seen limit
  onRow := distinctRow seen limit
  onEnd := Step.finish (.distinct .exhausted [] limit)

theorem distinctStage_enters (limit : Nat) (seen : List Binding) (phase : Phase)
    (h : phase.isDone = false) :
    (distinctStage limit seen).Enters ctx (.distinct phase seen limit) :=
  fun _ _ _ _ => Pipe.step_distinct h

theorem distinct (limit : Nat) (hp : Runs ctx all known p f) (h : phase.isDone = false) :
    Runs ctx all known (.distinct phase [] limit p) (f.distinct limit []) := by
  refine hp.through (distinctStage limit) (Flow.distinct limit)
    (fun seen => distinctStage_enters limit seen _ rfl) (fun _ _ => Nat.le_refl _) (fun _ _ => rfl)
    (fun seen b q f known ih => ?_) (fun _ _ _ => .done fun _ hs => ⟨rfl, rfl, hs⟩)
    [] (distinctStage_enters limit [] phase h)
  show Continues _ _ _ (distinctRow seen limit b q) _
  have hq (seen : List Binding) := ih seen _ (distinctStage_enters limit seen .active rfl)
  unfold distinctRow Flow.distinct
  by_cases hseen : seen.contains b = true
  · simp only [if_pos hseen]
    exact .skip (fun _ hs => does_quiet hs) (hq seen)
  · simp only [if_neg hseen, List.length_cons]
    by_cases hlimit : exceeds (seen.length + 1) limit = true
    · simp only [if_pos hlimit]
      exact .fail fun _ hs => does_quiet hs
    · simp only [if_neg hlimit]
      exact .yield (fun _ hs => does_quiet hs) (hq (b :: seen))

/-! ## Sorts -/

/-- What a sort has gathered after some rows. -/
def keyedRows (keys : List SortKey) (rows : List Binding) : Array (List (Option Term) × Binding) :=
  (rows.map fun row => (keyValues keys row, row)).toArray

theorem keyedRows_push (keys : List SortKey) (rows : List Binding) (b : Binding) :
    (keyedRows keys rows).push (keyValues keys b, b) = keyedRows keys (rows ++ [b]) := by
  unfold keyedRows
  rw [List.push_toArray, List.map_append]
  rfl

theorem keyedRows_size (keys : List SortKey) (rows : List Binding) :
    (keyedRows keys rows).size = rows.length := by
  unfold keyedRows
  rw [List.size_toArray, List.length_map]

/-- A sort as a stage, behind some rows. A failure of its input loses them. -/
def orderStage (ctx : Context) (keys : List SortKey) (rows : List Binding) : Stage where
  hold := .order .active keys (.gathering (keyedRows keys rows))
  drop := .order .active keys (.gathering #[])
  onRow := orderRow ctx keys (keyedRows keys rows)
  onEnd := orderEnd keys (keyedRows keys rows)

theorem orderStage_enters (keys : List SortKey) (rows : List Binding) (phase : Phase)
    (h : phase.isDone = false) :
    (orderStage ctx keys rows).Enters ctx
      (.order phase keys (.gathering (keyedRows keys rows))) :=
  fun _ _ _ _ => Pipe.step_order_gathering h

theorem orderRow_keyed (keys : List SortKey) (rows : List Binding) (b : Binding) (q : Pipe)
    {state : RunState} (hs : state.cancelled = false) :
    orderRow ctx keys (keyedRows keys rows) b q state =
      if exceeds (rows.length + 1) ctx.maxRows then
        ⟨.fail (.tooLarge (rows.length + 1) ctx.maxRows), .order .active keys (.gathering #[]) q,
          keys.map fun k => Event.evaluate k.expr b, state⟩
      else
        ⟨.skip, .order .active keys (.gathering (keyedRows keys (rows ++ [b]))) q,
          keys.map fun k => Event.evaluate k.expr b, state⟩ := by
  unfold orderRow
  rw [RunState.checkCancelled_of_running hs, keyedRows_push]
  simp only [keyedRows_size, List.length_append, List.length_singleton]

theorem order_sorted (keys : List SortKey) (rows : List Binding) :
    Runs ctx all known (.order .active keys (.sorted rows) p) (.ofRows rows) := by
  have hnil : Runs ctx all known (.order .active keys (.sorted []) p) .done := by
    refine .done (q := .order .exhausted keys (.sorted []) p) fun scope state _ hs => ?_
    rw [Pipe.step_order_nil rfl]
    exact does_quiet hs
  have hlist := listing (fun rows => .order .active keys (.sorted rows) p) some hnil
    (fun row rows scope state _ hs => by
      rw [Pipe.step_order_cons rfl]
      exact does_quiet hs)
    rows
  rwa [List.filterMap_some, Flow.append_done] at hlist

theorem order (keys : List SortKey) (hp : Runs ctx all known p f) (h : phase.isDone = false) :
    Runs ctx all known (.order phase keys (.gathering #[]) p)
      (f.gather ctx.maxRows (.sorted keys) []) := by
  refine hp.through (orderStage ctx keys) (Flow.gather ctx.maxRows (.sorted keys))
    (fun rows => orderStage_enters keys rows _ rfl) (fun _ _ => Nat.le_refl _) (fun _ _ => rfl)
    (fun rows b q f known ih => ?_) (fun rows q known => ?_) []
    (orderStage_enters keys [] phase h)
  · have hq := ih (rows ++ [b]) _ (orderStage_enters keys (rows ++ [b]) .active rfl)
    unfold Flow.gather
    by_cases hlimit : exceeds (rows.length + 1) ctx.maxRows = true
    · rw [if_pos hlimit]
      refine .fail (q := .order .active keys (.gathering #[]) q) fun state hs => ?_
      show Does (orderRow ctx keys (keyedRows keys rows) b q state) _ _
      rw [orderRow_keyed keys rows b q hs, if_pos hlimit]
      exact ⟨rfl, rfl, hs⟩
    · rw [if_neg hlimit]
      refine .skip (fun state hs => ?_) hq
      show Does (orderRow ctx keys (keyedRows keys rows) b q state) _ _
      rw [orderRow_keyed keys rows b q hs, if_neg hlimit]
      exact ⟨rfl, rfl, hs⟩
  · exact .skip (fun state hs => ⟨rfl, rfl, hs⟩) (order_sorted keys _)

/-! ## Concatenations -/

/-- A concatenation as a stage over its first part. -/
def concatFirst (rest : Pipe) : Stage where
  hold := fun first => .concat .active false first rest
  drop := fun first => .concat .active false first rest
  onRow row first := .quiet (.yield row) (.concat .active false first rest)
  onEnd first state := ⟨.skip, .concat .active true first.close.1 rest, first.close.2, state⟩

theorem concatFirst_enters (rest : Pipe) (phase : Phase) (h : phase.isDone = false) :
    (concatFirst rest).Enters ctx fun first => .concat phase false first rest :=
  fun _ _ _ _ => Pipe.step_concat_first h

/-- A concatenation as a stage over the rest, once the first part has ended. -/
def concatRest (first : Pipe) : Stage where
  hold := .concat .active true first
  drop := .concat .active true first
  onRow row rest := .quiet (.yield row) (.concat .active true first rest)
  onEnd rest := .quiet .done (.concat .exhausted true first rest)

theorem concatRest_enters (first : Pipe) :
    (concatRest first).Enters ctx (.concat .active true first) :=
  fun _ _ _ _ => Pipe.step_concat_rest rfl

theorem concat_dry (first : Pipe) (hp : Runs ctx all known p f) :
    Runs ctx all known (.concat .active true first p) f :=
  hp.through (fun _ : Unit => concatRest first) (fun _ f => f)
    (fun _ => concatRest_enters first) (fun _ q => Nat.le_add_left q.readers _) (fun _ _ => rfl)
    (fun _ _ _ _ _ ih => .yield (fun _ hs => does_quiet hs) (ih () _ (concatRest_enters first)))
    (fun _ _ _ => .done fun _ hs => does_quiet hs) () (concatRest_enters first)

theorem concat {rest : Pipe} {g : Flow} (hp : Runs ctx all known p f) (hrest : Gives ctx all rest g)
    (h : phase.isDone = false) : Runs ctx all known (.concat phase false p rest) (f ++ g) :=
  hp.through (fun _ : Unit => concatFirst rest) (fun _ f => f ++ g)
    (fun _ => concatFirst_enters rest .active rfl) (fun _ q => Nat.le_add_right q.readers _)
    (fun _ _ => rfl)
    (fun _ _ _ _ _ ih => .yield (fun _ hs => does_quiet hs)
      (ih () _ (concatFirst_enters rest .active rfl)))
    (fun _ q known => .skip (fun _ hs => ⟨rfl, rfl, hs⟩) (concat_dry q.close.1 (hrest known)))
    () (concatFirst_enters rest phase h)

theorem concatEnd (h : phase.isDone = false) : Runs ctx all known (.concatEnd phase) .done := by
  refine .done (q := .concatEnd .exhausted) fun scope state _ hs => ?_
  rw [Pipe.step_concatEnd h]
  exact does_quiet hs

/-- Two pipelines, one after the other. -/
theorem concat_pair {l r : Pipe} {g : Flow} (hl : Gives ctx all l f) (hr : Gives ctx all r g) :
    Gives ctx all (.concatAll [l, r]) (f ++ g) := by
  intro known
  have hrest : Gives ctx all (.concatAll [r]) (g ++ .done) :=
    fun known => (hr known).concat (fun _ => concatEnd rfl) rfl
  rw [Flow.append_done] at hrest
  exact (hl known).concat hrest rfl

end Runs

end TripleQuery
