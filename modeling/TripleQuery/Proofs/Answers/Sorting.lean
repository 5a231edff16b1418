import TripleQuery.Proofs.Answers.Refinement
import TripleQuery.Proofs.Pipe.Counters
import TripleQuery.Proofs.Solutions.Sorting

/-!
# Draining a sort

A sort gathers what its input gives out, whatever the input is, and sorts it at the end. So if the
input is drained to some rows, without a failure and uncancelled (`Pipe.Delivers`), the sort is
drained to the same rows, stably sorted (`order_sorts_stably`). And since the sort order extends the
order by value, no filter finds a later value to be less than an earlier one
(`sort_extends_comparison`).
-/

namespace TripleQuery

open Runs (keyedRows keyedRows_push keyedRows_size orderRow_keyed order_sorted)

variable {ctx : Context} {p : Pipe} {state : RunState} {keys : List SortKey}

/-! ## Inputs that come to an end -/

/-- The pipeline gives the rows, one after the other, and then ends, and nobody cancels. -/
inductive Pipe.Delivers (ctx : Context) : Pipe → RunState → List Binding → Prop where
  | done {p : Pipe} {state : RunState} (h : (p.step ctx none state).signal = .done)
    (hs : (p.step ctx none state).state.cancelled = false) : Delivers ctx p state []
  | skip {p : Pipe} {state : RunState} {rows : List Binding}
    (h : (p.step ctx none state).signal = .skip)
    (hs : (p.step ctx none state).state.cancelled = false)
    (hrest : Delivers ctx (p.step ctx none state).pipe (p.step ctx none state).state rows) :
    Delivers ctx p state rows
  | yield {p : Pipe} {state : RunState} {b : Binding} {rows : List Binding}
    (h : (p.step ctx none state).signal = .yield b)
    (hs : (p.step ctx none state).state.cancelled = false)
    (hrest : Delivers ctx (p.step ctx none state).pipe (p.step ctx none state).state rows) :
    Delivers ctx p state (b :: rows)

/-- A run that ends uncancelled began so. -/
theorem Pipe.drain_go_running {fuel : Nat} {log : Array Event} {gathered : Array Binding}
    (h : (Pipe.drain.go ctx fuel p state log gathered).state.cancelled = false) :
    state.cancelled = false := by
  induction fuel generalizing p state log gathered with
  | zero => exact h
  | succ fuel ih =>
    refine (p.step_advances ctx none state).running ?_
    rw [Pipe.drain.go] at h
    cases hsignal : (p.step ctx none state).signal with
    | yield _ | skip =>
      simp only [hsignal] at h
      exact ih h
    | done | fail | await =>
      simp only [hsignal] at h
      exact h

/-- What is drained to the end was delivered. -/
theorem Pipe.delivers_of_drain_go {fuel : Nat} {log : Array Event} {gathered : Array Binding}
    {out : List Binding} (hout : (Pipe.drain.go ctx fuel p state log gathered).outcome = .value out)
    (hrunning : (Pipe.drain.go ctx fuel p state log gathered).state.cancelled = false) :
    ∃ rows, out = gathered.toList ++ rows ∧ p.Delivers ctx state rows := by
  induction fuel generalizing p state log gathered with
  | zero => cases hout
  | succ fuel ih =>
    rw [Pipe.drain.go] at hout hrunning
    cases hsignal : (p.step ctx none state).signal with
    | yield b =>
      simp only [hsignal] at hout hrunning
      obtain ⟨rows, rfl, hrows⟩ := ih hout hrunning
      refine ⟨b :: rows, ?_, .yield hsignal (drain_go_running hrunning) hrows⟩
      rw [Array.toList_push, List.append_assoc]
      rfl
    | skip =>
      simp only [hsignal] at hout hrunning
      obtain ⟨rows, rfl, hrows⟩ := ih hout hrunning
      exact ⟨rows, rfl, .skip hsignal (drain_go_running hrunning) hrows⟩
    | done =>
      simp only [hsignal] at hout hrunning
      cases hout
      exact ⟨[], (List.append_nil _).symm, .done hsignal hrunning⟩
    | fail | await =>
      simp only [hsignal] at hout
      cases hout

/-- A step that gives nothing puts the outcome off by one. -/
theorem Pipe.drain_go_skip {q : Pipe} {events : List Event} {state' : RunState}
    {gathered : Array Binding} {o : Outcome (List Binding)} {n : Nat}
    (hstep : p.step ctx none state = ⟨.skip, q, events, state'⟩)
    (h : ∀ fuel log, (Pipe.drain.go ctx fuel q state' log gathered).outcome =
      if n ≤ fuel then o else .stalled) (fuel : Nat) (log : Array Event) :
    (Pipe.drain.go ctx fuel p state log gathered).outcome =
      if n + 1 ≤ fuel then o else .stalled := by
  cases fuel with
  | zero => rfl
  | succ fuel =>
    rw [Pipe.drain.go, hstep]
    simp only [Nat.add_le_add_iff_right]
    exact h fuel _

/-! ## The steps of a sort -/

/-- A sort behind some rows of its input. -/
def sortBehind (keys : List SortKey) (rows : List Binding) (phase : Phase) (p : Pipe) : Pipe :=
  .order phase keys (.gathering (keyedRows keys rows)) p

/-- A sort at the end of its input. -/
def sortDone (keys : List SortKey) (rows : List Binding) (p : Pipe) : Pipe :=
  .order .active keys (.sorted (rows.mergeSort (sortsBefore keys))) p

section Steps

variable {phase : Phase} (hphase : phase.isDone = false) (rows : List Binding)
include hphase

theorem step_sortBehind :
    (sortBehind keys rows phase p).step ctx none state =
      orderStep ctx keys (keyedRows keys rows) (p.step ctx none state) :=
  Pipe.step_order_gathering hphase

theorem step_sortBehind_skip (h : (p.step ctx none state).signal = .skip) :
    (sortBehind keys rows phase p).step ctx none state =
      ⟨.skip, sortBehind keys rows .active (p.step ctx none state).pipe,
        (p.step ctx none state).events, (p.step ctx none state).state⟩ := by
  rw [step_sortBehind hphase, orderStep, Step.feedOr]
  simp only [h]
  rfl

theorem step_sortBehind_done (h : (p.step ctx none state).signal = .done) :
    (sortBehind keys rows phase p).step ctx none state =
      ⟨.skip, sortDone keys rows (p.step ctx none state).pipe.close.1,
        (p.step ctx none state).events ++ (p.step ctx none state).pipe.close.2,
        (p.step ctx none state).state⟩ := by
  rw [step_sortBehind hphase, orderStep, Step.feedOr, sortDone, ← sorted_keyed]
  simp only [h]
  rfl

theorem step_sortBehind_yield {b : Binding} (h : (p.step ctx none state).signal = .yield b)
    (hs : (p.step ctx none state).state.cancelled = false)
    (hlimit : exceeds (rows.length + 1) ctx.maxRows = false) :
    (sortBehind keys rows phase p).step ctx none state =
      ⟨.skip, sortBehind keys (rows ++ [b]) .active (p.step ctx none state).pipe,
        (p.step ctx none state).events ++ keys.map fun k => Event.evaluate k.expr b,
        (p.step ctx none state).state⟩ := by
  rw [step_sortBehind hphase, orderStep, Step.feedOr]
  simp only [h]
  rw [orderRow_keyed keys rows b _ hs, if_neg (ne_true_of_eq_false hlimit)]
  rfl

/-- All that a step of a sort can come to. -/
theorem step_sortBehind_cases :
    (∃ rows' q events state', (sortBehind keys rows phase p).step ctx none state =
        ⟨.skip, sortBehind keys rows' .active q, events, state'⟩) ∨
      (∃ q events state', (sortBehind keys rows phase p).step ctx none state =
        ⟨.skip, sortDone keys rows q, events, state'⟩) ∨
      (∃ e, ((sortBehind keys rows phase p).step ctx none state).signal = .fail e) ∨
      ((sortBehind keys rows phase p).step ctx none state).signal = .await := by
  cases hsignal : (p.step ctx none state).signal with
  | skip => exact .inl ⟨rows, _, _, _, step_sortBehind_skip hphase rows hsignal⟩
  | done => exact .inr (.inl ⟨_, _, _, step_sortBehind_done hphase rows hsignal⟩)
  | yield b =>
    cases hs : (p.step ctx none state).state.cancelled with
    | true =>
      refine .inr (.inr (.inl ⟨.cancelled, ?_⟩))
      rw [step_sortBehind hphase, orderStep, Step.feedOr]
      simp only [hsignal, orderRow, RunState.checkCancelled_of_cancelled hs]
      rfl
    | false =>
      cases hlimit : exceeds (rows.length + 1) ctx.maxRows with
      | true =>
        refine .inr (.inr (.inl ⟨.tooLarge (rows.length + 1) ctx.maxRows, ?_⟩))
        rw [step_sortBehind hphase, orderStep, Step.feedOr]
        simp only [hsignal]
        rw [orderRow_keyed keys rows b _ hs, if_pos hlimit]
        rfl
      | false =>
        exact .inl ⟨rows ++ [b], _, _, _, step_sortBehind_yield hphase rows hsignal hs hlimit⟩
  | fail e =>
    refine .inr (.inr (.inl ⟨e, ?_⟩))
    rw [step_sortBehind hphase, orderStep, Step.feedOr]
    simp only [hsignal]
  | await =>
    refine .inr (.inr (.inr ?_))
    rw [step_sortBehind hphase, orderStep, Step.feedOr]
    simp only [hsignal]

end Steps

/-- **Sorting what an input delivers.** The sort comes to the sorted rows. -/
theorem Pipe.Delivers.sorts {rows : List Binding} (h : p.Delivers ctx state rows)
    (keys : List SortKey) (before : List Binding) {phase : Phase} (hphase : phase.isDone = false)
    (hlimit : ctx.maxRows = 0 ∨ before.length + rows.length ≤ ctx.maxRows) :
    ∃ n, ∀ fuel log,
      (Pipe.drain.go ctx fuel (sortBehind keys before phase p) state log #[]).outcome =
        if n ≤ fuel then .value ((before ++ rows).mergeSort (sortsBefore keys)) else .stalled := by
  have hactive : Phase.active.isDone = false := rfl
  induction h generalizing before phase with
  | @done p state hsignal hs =>
    have hruns : Runs ctx none 0 (sortDone keys before (p.step ctx none state).pipe.close.1)
        (.ofRows (before.mergeSort (sortsBefore keys))) := order_sorted keys _
    obtain ⟨n, hn⟩ := hruns.drains
    rw [Flow.outcome_ofRows] at hn
    rw [List.append_nil]
    exact ⟨n + 1, drain_go_skip (step_sortBehind_done hphase before hsignal)
      fun fuel log => hn fuel _ log hs⟩
  | @skip p state rows hsignal hs hrest ih =>
    obtain ⟨n, hn⟩ := ih before hactive hlimit
    exact ⟨n + 1, drain_go_skip (step_sortBehind_skip hphase before hsignal) hn⟩
  | @yield p state b rows hsignal hs hrest ih =>
    rw [List.length_cons] at hlimit
    have hexceeds : exceeds (before.length + 1) ctx.maxRows = false := by
      unfold exceeds
      rw [Bool.and_eq_false_iff, decide_eq_false_iff_not, decide_eq_false_iff_not]
      omega
    have hrest : ctx.maxRows = 0 ∨ (before ++ [b]).length + rows.length ≤ ctx.maxRows := by
      rw [List.length_append, List.length_singleton]
      omega
    obtain ⟨n, hn⟩ := ih (before ++ [b]) hactive hrest
    rw [List.append_assoc] at hn
    exact ⟨n + 1, drain_go_skip (step_sortBehind_yield hphase before hsignal hs hexceeds) hn⟩

/-- **A sort is stable.** If an input gives some rows to someone who drains it, without a failure,
a cancellation or more rows than the limit allows for, then the sort gives these rows, sorted by its
keys, and ties in the order of the input, also those of descending keys. -/
theorem order_sorts_stably {fuel : Nat} {log : Array Event} {rows : List Binding}
    (hrows : (p.drain ctx fuel state log).outcome = .value rows)
    (hrunning : (p.drain ctx fuel state log).state.cancelled = false)
    (hlimit : ctx.maxRows = 0 ∨ rows.length ≤ ctx.maxRows)
    (htagged : ∀ row ∈ rows, ∀ k ∈ keys, k.Tagged row) :
    ∃ out, StableSort keys rows out ∧ ∃ n, ∀ fuel' log',
      ((Pipe.order .created keys (.gathering #[]) p).drain ctx fuel' state log').outcome =
        if n ≤ fuel' then .value out else .stalled := by
  obtain ⟨delivered, hdelivered, hinput⟩ := Pipe.delivers_of_drain_go hrows hrunning
  obtain rfl : rows = delivered := hdelivered
  have hcreated : Phase.created.isDone = false := rfl
  have hsize : ctx.maxRows = 0 ∨ ([] : List Binding).length + rows.length ≤ ctx.maxRows := by
    rwa [List.length_nil, Nat.zero_add]
  exact ⟨_, stableSort_mergeSort htagged, hinput.sorts keys [] hcreated hsize⟩

namespace Instance

/-- Three rows, two of them alike in the second variable. -/
def scores : List Binding :=
  [.ofPairs [(x, .integer 1), (y, .integer 2)], .ofPairs [(x, .integer 3), (y, .integer 2)],
    .ofPairs [(x, .integer 2), (y, .integer 10)]]

/-- By the second variable, the largest value first. -/
def byScore : SortKey := ⟨.var y, .descending⟩

end Instance

open Instance in
theorem order_sorts_stably_scores :
    ∃ out, StableSort [byScore] scores out ∧ ∃ n, ∀ fuel log,
      ((Pipe.order .created [byScore] (.gathering #[]) (.bindings .created scores)).drain
        (context edges .standard) fuel .initial log).outcome =
          if n ≤ fuel then .value out else .stalled := by
  have hrows : ((Pipe.bindings .created scores).drain (context edges .standard) 4 .initial
      #[]).outcome = .value scores := rfl
  have htagged : ∀ row ∈ scores, ∀ k ∈ [byScore], k.Tagged row := by
    intro row hrow k hk t ht
    obtain rfl := List.mem_singleton.1 hk
    rw [scores, List.mem_cons, List.mem_cons, List.mem_singleton] at hrow
    rcases hrow with rfl | rfl | rfl <;> cases ht <;> exact .of_typed _ _
  exact order_sorts_stably hrows rfl (.inr (by decide)) htagged

/-! ## Sorting and comparing -/

/-- The rows that a sort has still to give out. -/
theorem Pipe.eq_of_drain_go_sorted {fuel : Nat} {log : Array Event} {gathered : Array Binding}
    {rows out : List Binding}
    (h : (Pipe.drain.go ctx fuel (.order .active keys (.sorted rows) p) state log
      gathered).outcome = .value out) : out = gathered.toList ++ rows := by
  induction fuel generalizing rows log gathered with
  | zero => cases h
  | succ fuel ih =>
    rw [Pipe.drain.go] at h
    cases rows with
    | nil =>
      rw [step_order_nil rfl] at h
      cases h
      exact (List.append_nil _).symm
    | cons b rows =>
      rw [step_order_cons rfl] at h
      rw [ih h, Array.toList_push, List.append_assoc]
      rfl

/-- Whoever drains a sort gets sorted rows. -/
theorem exists_mergeSort_of_drain (before : List Binding) {fuel : Nat} {log : Array Event}
    {out : List Binding} {phase : Phase} (hphase : phase.isDone = false)
    (h : (Pipe.drain.go ctx fuel (sortBehind keys before phase p) state log #[]).outcome =
      .value out) : ∃ rows : List Binding, out = rows.mergeSort (sortsBefore keys) := by
  have hactive : Phase.active.isDone = false := rfl
  induction fuel generalizing p state log before phase with
  | zero => cases h
  | succ fuel ih =>
    rw [Pipe.drain.go] at h
    obtain ⟨rows, q, events, state', hstep⟩ | ⟨q, events, state', hstep⟩ | ⟨e, hfail⟩ | hawait :=
      step_sortBehind_cases hphase before
    · rw [hstep] at h
      exact ih rows hactive h
    · rw [hstep] at h
      exact ⟨before, Pipe.eq_of_drain_go_sorted h⟩
    · simp only [hfail] at h
      cases h
    · simp only [hawait] at h
      cases h

/-- No filter finds the first term to be less than the second one, whatever expressions stand for
the two. -/
def Term.NeverBelow (a b : Term) : Prop :=
  ∀ row l r, Expr.evaluate row l = .ok a → Expr.evaluate row r = .ok b →
    (Expr.compare .lt l r).admits row = false ∧ (Expr.compare .gt r l).admits row = false

theorem Expr.apply_of_admits {row : Binding} {l r : Expr} {a b : Term} {op : CompareOp}
    (hl : l.evaluate row = .ok a) (hr : r.evaluate row = .ok b)
    (h : (Expr.compare op l r).admits row = true) : op.apply a b = .ok true := by
  have hvalue : (Expr.compare op l r).evaluate row = (op.apply a b).map .boolean := by
    simp [evaluate, hl, hr]
  unfold admits test at h
  rw [hvalue] at h
  cases hop : op.apply a b with
  | error e =>
    rw [hop] at h
    cases h
  | ok x =>
    rw [hop] at h
    have hx : (truthOf (.ok (.boolean x))) = .ok x := truthValue_boolean x
    simp only [Except.map, hx] at h
    rw [h]

theorem CompareOp.valueOrder?_of_apply {a b : Term} :
    (CompareOp.lt.apply a b = .ok true → a.valueOrder? b = some .lt) ∧
      (CompareOp.gt.apply a b = .ok true → a.valueOrder? b = some .gt) := by
  unfold CompareOp.apply
  cases a.valueOrder? b with
  | none => exact ⟨nofun, nofun⟩
  | some o => cases o <;> exact ⟨by simp [CompareOp.holds], by simp [CompareOp.holds]⟩

theorem Term.neverBelow_of_valueOrder? {a b : Term} (h : a.valueOrder? b ≠ some .lt) :
    a.NeverBelow b := by
  intro row l r hl hr
  rw [← Bool.not_eq_true, ← Bool.not_eq_true]
  constructor
  · intro hlt
    exact h (CompareOp.valueOrder?_of_apply.1 (Expr.apply_of_admits hl hr hlt))
  · intro hgt
    have hba := CompareOp.valueOrder?_of_apply.2 (Expr.apply_of_admits hr hl hgt)
    apply h
    rw [Term.valueOrder?_swap, hba]
    rfl

theorem SortKey.order_isLE {k : SortKey} {a b : Binding} (h : Precedes [k] a b ∨ Ties [k] a b) :
    (k.order a b).isLE := by
  obtain ⟨⟨h⟩ | ⟨-, ⟨⟩⟩⟩ | h := h
  · simp [h]
  · simp [h k List.mem_cons_self]

/-- The values of one variable, sorted by it. -/
theorem sorted_neverBelow {x : Variable} {rows : List Binding}
    (htagged : ∀ row ∈ rows, ∀ t, row.get? x = some t → t.WellTagged) :
    (rows.mergeSort (sortsBefore [⟨.var x, .ascending⟩])).Pairwise fun earlier later =>
      ∀ a b, earlier.get? x = some a → later.get? x = some b → b.NeverBelow a := by
  have hvalue (row : Binding) : (⟨.var x, .ascending⟩ : SortKey).value? row = row.get? x := by
    unfold SortKey.value? Expr.evaluate
    cases row.get? x <;> rfl
  have hkeys : ∀ row ∈ rows, ∀ k ∈ [(⟨.var x, .ascending⟩ : SortKey)], k.Tagged row := by
    intro row hrow k hk t ht
    obtain rfl := List.mem_singleton.1 hk
    refine htagged row hrow t ((hvalue row).symm.trans ?_)
    rw [SortKey.value?, ht]
    rfl
  have hstable := stableSort_mergeSort hkeys
  refine hstable.pairwise.imp_of_mem fun {earlier later} hearlier hlater horder a b ha hb => ?_
  have hle : (sortOrder (some a) (some b)).isLE := by
    rw [← ha, ← hb, ← hvalue, ← hvalue]
    exact SortKey.order_isLE horder
  refine Term.neverBelow_of_valueOrder? fun hlt => ?_
  -- otherwise they would be sorted the other way round
  have hba := Term.sortOrder_of_valueOrder? (htagged later (hstable.perm.mem_iff.1 hlater) b hb)
    (htagged earlier (hstable.perm.mem_iff.1 hearlier) a ha) hlt
  rw [sortOrder_swap, hba] at hle
  cases hle

/-- **What filters find less is sorted before.** Well-tagged terms that are ordered by value are
sorted that way, and in a list sorted by a variable no filter finds a later value of it to be less
than an earlier one. -/
theorem sort_extends_comparison :
    (∀ a b : Term, a.WellTagged → b.WellTagged →
      (a.valueOrder? b = some .lt → sortOrder (some a) (some b) = .lt) ∧
        (a.valueOrder? b = some .gt → sortOrder (some a) (some b) = .gt)) ∧
      ∀ (ctx : Context) (p : Pipe) (x : Variable) (fuel : Nat) (state : RunState)
        (log : Array Event) (out : List Binding),
        ((Pipe.order .created [⟨.var x, .ascending⟩] (.gathering #[]) p).drain ctx fuel state
          log).outcome = .value out →
        (∀ row ∈ out, ∀ t, row.get? x = some t → t.WellTagged) →
        out.Pairwise fun earlier later =>
          ∀ a b, earlier.get? x = some a → later.get? x = some b → b.NeverBelow a := by
  refine ⟨fun a b ha hb => ⟨Term.sortOrder_of_valueOrder? ha hb, fun h => ?_⟩,
    fun ctx p x fuel state log out hout htagged => ?_⟩
  · have hswap : b.valueOrder? a = some .lt := by
      rw [Term.valueOrder?_swap, h]
      rfl
    rw [sortOrder_swap, Term.sortOrder_of_valueOrder? hb ha hswap]
    rfl
  · have hcreated : Phase.created.isDone = false := rfl
    obtain ⟨rows, rfl⟩ := exists_mergeSort_of_drain [] hcreated hout
    exact sorted_neverBelow fun row hrow => htagged row (List.mem_mergeSort.2 hrow)

open Instance in
theorem sort_extends_comparison_scores :
    (∃ a b : Term, a.WellTagged ∧ b.WellTagged ∧ a.valueOrder? b = some .lt ∧
        sortOrder (some a) (some b) = .lt) ∧
      ∃ fuel out, ((Pipe.order .created [⟨.var x, .ascending⟩] (.gathering #[])
          (.bindings .created scores)).drain (context edges .standard) fuel .initial #[]).outcome =
            .value out ∧
        out.Perm scores ∧ out.Pairwise fun earlier later =>
          ∀ a b, earlier.get? x = some a → later.get? x = some b → b.NeverBelow a := by
  have hpadded : Expr.Instance.padded.WellTagged := .of_typed _ _
  have htwo : (Term.integer 2).WellTagged := .of_typed _ _
  have hless : Expr.Instance.padded.valueOrder? (.integer 2) = some .lt := by decide
  refine ⟨⟨_, _, hpadded, htwo, hless,
    (sort_extends_comparison.1 _ _ hpadded htwo).1 hless⟩, ?_⟩
  have hrows : ((Pipe.bindings .created scores).drain (context edges .standard) 4 .initial
      #[]).outcome = .value scores := rfl
  obtain ⟨delivered, hdelivered, hinput⟩ := Pipe.delivers_of_drain_go hrows rfl
  obtain rfl : scores = delivered := hdelivered
  have hcreated : Phase.created.isDone = false := rfl
  obtain ⟨n, hn⟩ := hinput.sorts [⟨.var x, .ascending⟩] [] hcreated (.inr (by decide))
  have hout := (hn n #[]).trans (if_pos (Nat.le_refl n))
  have hperm := List.mergeSort_perm scores (sortsBefore [⟨.var x, .ascending⟩])
  refine ⟨n, _, hout, hperm, sort_extends_comparison.2 _ _ x n _ _ _ hout fun row hrow t ht => ?_⟩
  have hscore := hperm.mem_iff.1 hrow
  rw [scores, List.mem_cons, List.mem_cons, List.mem_singleton] at hscore
  rcases hscore with rfl | rfl | rfl <;> cases ht <;> exact .of_typed _ _

end TripleQuery
