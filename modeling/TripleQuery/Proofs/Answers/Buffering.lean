import TripleQuery.Exec.SharedSeed
import TripleQuery.Proofs.Answers.Draining
import TripleQuery.Proofs.Flow.Op
import TripleQuery.Proofs.Pipe.Joins
import TripleQuery.Proofs.Pipe.Share

/-!
# Buffers

A stage that buffers rows may buffer as many as the limit says, and refuses the next one
(`buffers_up_to_limit`). Sorts, joins and shared inputs count the rows of an input; a removal of
duplicates counts different ones, and gives them out before it refuses one.

Over an input that comes to a flow, whatever input that is, each of these stages comes to the
operation on flows that stands for it. The rest is about flows of rows.
-/

namespace TripleQuery

open Runs (keyedRows orderRow_keyed joinGather_toArray)

/-! ## Buffers of flows -/

namespace Flow

variable {m : Nat}

theorem exceeds_iff {size : Nat} : exceeds size m = true ↔ ¬ (m = 0 ∨ size ≤ m) := by
  unfold exceeds
  rw [Bool.and_eq_true, decide_eq_true_eq, decide_eq_true_eq]
  omega

/-- Gathering some rows behind others. -/
theorem gather_ofRows (k : List Binding → Flow) (rows before : List Binding)
    (hbefore : m = 0 ∨ before.length ≤ m) :
    (ofRows rows).gather m k before =
      if m = 0 ∨ before.length + rows.length ≤ m then k (before ++ rows)
      else .fail (.tooLarge (m + 1) m) := by
  induction rows generalizing before with
  | nil => rw [ofRows, gather, List.append_nil, List.length_nil, Nat.add_zero, if_pos hbefore]
  | cons b rows ih =>
    rw [ofRows, gather, List.length_cons]
    by_cases he : exceeds (before.length + 1) m = true
    · have hfull := exceeds_iff.1 he
      obtain rfl : before.length = m := by omega
      rw [if_pos he, if_neg (by omega)]
    · have hroom : m = 0 ∨ (before ++ [b]).length ≤ m := by
        rw [List.length_append, List.length_singleton]
        exact Decidable.not_not.1 (mt exceeds_iff.2 he)
      rw [if_neg he, ih _ hroom, List.append_assoc, List.length_append, List.length_singleton,
        Nat.add_right_comm, Nat.add_assoc]
      rfl

/-- Giving out some rows while they are buffered behind others. -/
theorem limit_ofRows (rows : List Binding) (size : Nat) (hsize : m = 0 ∨ size ≤ m) :
    (ofRows rows).limit m size =
      if m = 0 ∨ size + rows.length ≤ m then ofRows rows
      else ofRows (rows.take (m - size)) ++ fail (.tooLarge (m + 1) m) := by
  induction rows generalizing size with
  | nil => rw [ofRows, limit, List.length_nil, Nat.add_zero, if_pos hsize]
  | cons b rows ih =>
    rw [ofRows, limit, List.length_cons]
    by_cases he : exceeds (size + 1) m = true
    · have hfull := exceeds_iff.1 he
      obtain rfl : size = m := by omega
      rw [if_pos he, if_neg (by omega), Nat.sub_self, List.take_zero]
      rfl
    · have hroom : m = 0 ∨ size + 1 ≤ m := Decidable.not_not.1 (mt exceeds_iff.2 he)
      rw [if_neg he, ih _ hroom, Nat.add_right_comm, Nat.add_assoc]
      by_cases hfits : m = 0 ∨ size + (rows.length + 1) ≤ m
      · rw [if_pos hfits, if_pos hfits]
      · obtain ⟨k, hk⟩ : ∃ k, m - size = k + 1 := ⟨m - (size + 1), by omega⟩
        have hk' : m - (size + 1) = k := by omega
        rw [if_neg hfits, if_neg hfits, hk, hk', List.take_succ_cons]
        rfl

/-- Removing duplicates is buffering the rows that are left. -/
theorem distinct_ofRows (rows seen : List Binding) :
    (ofRows rows).distinct m seen =
      (ofRows (rows.filter fun b => !seen.contains b).eraseDups).limit m seen.length := by
  induction rows generalizing seen with
  | nil => rfl
  | cons b rows ih =>
    rw [ofRows, distinct]
    by_cases hb : seen.contains b = true
    · rw [if_pos hb, eraseDups_unseen_of_mem hb, ih]
    · rw [if_neg hb, eraseDups_unseen_of_not_mem hb, ofRows, limit, ih, List.length_cons]

end Flow

/-! ## Stages over any input -/

section Stages

variable {ctx : Context} {s : Step} {f : Flow} {state out : RunState}

theorem distinctStep_comesTo (h : s.ComesTo ctx out f) (seen : List Binding) (m : Nat) :
    ∃ out', (distinctStep seen m s).ComesTo ctx out' (f.distinct m seen) := by
  induction h generalizing seen with
  | done => exact ⟨out, .done⟩
  | fail => exact ⟨out, .fail⟩
  | skip h ih =>
    obtain ⟨out', hrest⟩ := ih seen
    exact ⟨out', .skip (by rwa [Pipe.step_distinct rfl])⟩
  | @yield q events state b f h ih =>
    have hnext (seen : List Binding) : ∃ out',
        ((Pipe.distinct .active seen m q).step ctx none state).ComesTo ctx out'
          (f.distinct m seen) := by
      rw [Pipe.step_distinct rfl]
      exact ih seen
    show ∃ out', ((distinctRow seen m b q state).after events).ComesTo ctx out' _
    unfold distinctRow Flow.distinct
    by_cases hseen : seen.contains b = true
    · obtain ⟨out', hrest⟩ := hnext seen
      simp only [if_pos hseen]
      exact ⟨out', .skip hrest⟩
    · obtain ⟨out', hrest⟩ := hnext (b :: seen)
      simp only [if_neg hseen, List.length_cons]
      by_cases hlimit : exceeds (seen.length + 1) m = true
      · simp only [if_pos hlimit]
        exact ⟨state, .fail⟩
      · simp only [if_neg hlimit]
        exact ⟨out', .yield hrest⟩

/-! ### Sorts -/

theorem sorted_comesTo (keys : List SortKey) (rows : List Binding) (p : Pipe) (state : RunState) :
    ((Pipe.order .active keys (.sorted rows) p).step ctx none state).ComesTo ctx state
      (.ofRows rows) := by
  induction rows with
  | nil =>
    rw [Pipe.step_order_nil rfl]
    exact .done
  | cons row rows ih =>
    rw [Pipe.step_order_cons rfl]
    exact .yield ih

theorem orderStep_comesTo (h : s.ComesTo ctx out f) (hout : out.cancelled = false)
    (keys : List SortKey) (before : List Binding) :
    ∃ out', (orderStep ctx keys (keyedRows keys before) s).ComesTo ctx out'
      (f.gather ctx.maxRows (.sorted keys) before) := by
  induction h generalizing before with
  | @done q => exact ⟨out, .skip (sorted_comesTo keys _ q.close.1 out)⟩
  | fail => exact ⟨out, .fail⟩
  | skip h ih =>
    obtain ⟨out', hrest⟩ := ih before
    exact ⟨out', .skip (by rwa [Pipe.step_order_gathering rfl])⟩
  | @yield q events state b f h ih =>
    have hrunning : state.cancelled = false :=
      (q.step_advances ctx none state).running (h.running hout)
    show ∃ out', ((orderRow ctx keys (keyedRows keys before) b q state).after events).ComesTo ctx
      out' _
    rw [orderRow_keyed keys before b q hrunning, Flow.gather]
    by_cases hlimit : exceeds (before.length + 1) ctx.maxRows = true
    · rw [if_pos hlimit, if_pos hlimit]
      exact ⟨state, .fail⟩
    · obtain ⟨out', hrest⟩ := ih (before ++ [b])
      rw [if_neg hlimit, if_neg hlimit]
      exact ⟨out', .skip (by rwa [Pipe.step_order_gathering rfl])⟩

/-! ### Joins -/

section Joins

variable {kind : JoinKind} {condition : Option Expr} {rows : List Binding} {left right : Pipe}

/-- A join that tries a left row, before it goes on with the next one. -/
theorem trying_comesTo (h : ((Pipe.join .active kind condition (.idle rows) left right).step ctx
      none state).ComesTo ctx out f) (row : Binding) (untried : List Binding) (matched : Bool) :
    ((Pipe.join .active kind condition (.trying rows row untried matched) left right).step ctx none
      state).ComesTo ctx out (.ofRows (Flow.tryRows kind condition row matched untried) ++ f) := by
  induction untried generalizing matched with
  | nil =>
    rw [Pipe.step_join_trying rfl]
    unfold joinTry Flow.tryRows
    by_cases halone : kind = .left ∧ !matched
    · simp only [if_pos halone]
      exact .yield h
    · simp only [if_neg halone]
      exact .skip h
  | cons other untried ih =>
    rw [Pipe.step_join_trying rfl, joinTry]
    unfold Flow.tryRows
    cases row.merge other with
    | error e => exact .skip (ih matched)
    | ok merged =>
      by_cases hadmits : admitsAll condition merged = true
      · simp only [if_pos hadmits]
        exact .yield (ih true)
      · simp only [if_neg hadmits]
        exact .skip (ih matched)

theorem joinLeftStep_comesTo (h : s.ComesTo ctx out f) :
    (joinLeftStep kind condition rows right s).ComesTo ctx out
      (f.expand fun b => Flow.tryRows kind condition b false rows) := by
  induction h with
  | done => exact .done
  | fail => exact .fail
  | skip h ih => exact .skip (by rwa [Pipe.step_join_idle rfl])
  | yield h ih =>
    rw [Flow.expand_row]
    exact .skip (trying_comesTo (by rwa [Pipe.step_join_idle rfl]) _ _ _)

theorem joinGathered_comesTo (h : (left.step ctx none state).ComesTo ctx out f)
    (rows : List Binding) (right : Pipe) :
    ∃ out', (joinGathered kind condition rows.toArray left right state).ComesTo ctx out'
      (f.joinWith kind condition rows) := by
  have hempty : rows.toArray.isEmpty = rows.isEmpty := List.isEmpty_toArray rows
  unfold joinGathered Flow.joinWith
  by_cases hnone : kind = .inner ∧ rows.isEmpty
  · simp only [hempty, if_pos hnone]
    exact ⟨state, .done⟩
  · simp only [hempty, if_neg hnone]
    refine ⟨out, .skip ?_⟩
    show ((Pipe.join .active kind condition (.idle rows) left right.close.1).step ctx none
      state).ComesTo ctx out _
    rw [Pipe.step_join_idle rfl]
    exact joinLeftStep_comesTo h

/-- A join that gathers its right side. What it does after that matters only if there is room for
all rows. -/
theorem joinRightStep_comesTo (h : s.ComesTo ctx out f) (before : List Binding)
    (hbefore : ctx.maxRows = 0 ∨ before.length ≤ ctx.maxRows) {k : List Binding → Flow}
    (hk : ∀ rest right, f = .ofRows rest →
      (ctx.maxRows = 0 ∨ before.length + rest.length ≤ ctx.maxRows) →
        ∃ out', (joinGathered kind condition (before ++ rest).toArray left right out).ComesTo ctx
          out' (k (before ++ rest))) :
    ∃ out', (joinRightStep ctx kind condition before.toArray left s).ComesTo ctx out'
      (f.gather ctx.maxRows k before) := by
  induction h generalizing before with
  | @done q events =>
    obtain ⟨out', hrest⟩ := hk [] q rfl hbefore
    rw [List.append_nil] at hrest
    exact ⟨out', hrest.after events⟩
  | fail => exact ⟨out, .fail⟩
  | skip h ih =>
    obtain ⟨out', hrest⟩ := ih before hbefore hk
    exact ⟨out', .skip (by rwa [Pipe.step_join_gathering rfl])⟩
  | @yield q events state b f h ih =>
    show ∃ out', ((joinGather ctx kind condition before.toArray left b q state).after
      events).ComesTo ctx out' _
    rw [joinGather_toArray, Flow.gather]
    by_cases hlimit : exceeds (before.length + 1) ctx.maxRows = true
    · rw [if_pos hlimit, if_pos hlimit]
      exact ⟨state, .fail⟩
    · have hroom : ctx.maxRows = 0 ∨ (before ++ [b]).length ≤ ctx.maxRows := by
        rw [List.length_append, List.length_singleton]
        exact Decidable.not_not.1 (mt Flow.exceeds_iff.2 hlimit)
      obtain ⟨out', hrest⟩ := ih (before ++ [b]) hroom fun rest right hf hfits => by
        rw [List.append_assoc]
        refine hk (b :: rest) right (congrArg _ hf) ?_
        rw [List.length_append, List.length_singleton] at hfits
        rw [List.length_cons]
        omega
      rw [if_neg hlimit, if_neg hlimit]
      refine ⟨out', .skip ?_⟩
      show ((Pipe.join .active kind condition (.gathering (before ++ [b]).toArray) left q).step ctx
        none state).ComesTo ctx out' _
      rwa [Pipe.step_join_gathering rfl]

end Joins

/-! ### Shared inputs -/

/-- A reader that waits for its scope to read on. -/
theorem shareRead_comesTo (h : s.ComesTo ctx out f) (shared : SharedRows)
    (hclean : shared.fault = none) (hopen : shared.inputDone = false) :
    ∃ out', (shareRead shared (.replay .active shared.rows.size) [] s).ComesTo ctx out'
      (f.limit shared.limit shared.rows.size) := by
  have hahead (shared : SharedRows) : shared.rows[shared.rows.size]? = none :=
    Array.getElem?_eq_none (Nat.le_refl _)
  induction h generalizing shared with
  | @done q =>
    have hended (ended : SharedRows) (hclean : ended.fault = none)
        (hdone : ended.inputDone = true) :
        ((Pipe.share ended q (.replay .active ended.rows.size)).step ctx none out).ComesTo ctx out
          .done := by
      rw [Pipe.step_share_behind rfl hclean (hahead ended) fun _ => hdone]
      exact .done
    exact ⟨out, .skip (hended { shared with inputDone := true } hclean rfl)⟩
  | @fail q events e =>
    refine ⟨out, .skip ?_⟩
    show ((Pipe.share { shared with fault := some e } q (.replay .active shared.rows.size)).step
      ctx none out).ComesTo ctx out (.fail e)
    rw [Pipe.step_share_fault rfl rfl]
    exact .fail
  | @skip q events state f h ih =>
    obtain ⟨out', hrest⟩ := ih shared hclean hopen
    refine ⟨out', .skip ?_⟩
    show ((Pipe.share shared q (.replay .active shared.rows.size)).step ctx none state).ComesTo ctx
      out' _
    rwa [Pipe.step_share_ahead rfl hclean (hahead shared) hopen]
  | @yield q events state b f h ih =>
    have hsize : (shared.keep b).rows.size = shared.rows.size + 1 := Array.size_push b
    have hfault : (shared.keep b).fault =
        if exceeds (shared.rows.size + 1) shared.limit then
          some (.tooLarge (shared.rows.size + 1) shared.limit) else none := by
      rw [← hsize]
      rfl
    have hnext {out' : RunState} {f : Flow} (h : ((Pipe.share (shared.keep b) q
        (.replay .active shared.rows.size)).step ctx none state).ComesTo ctx out' f) :
        (shareRead shared (.replay .active shared.rows.size) [] ⟨.yield b, q, events,
          state⟩).ComesTo ctx out' f := .skip h
    rw [Flow.limit]
    by_cases hlimit : exceeds (shared.rows.size + 1) shared.limit = true
    · rw [if_pos hlimit] at hfault ⊢
      refine ⟨state, hnext ?_⟩
      rw [Pipe.step_share_fault rfl hfault]
      exact .fail
    · rw [if_neg hlimit] at hfault ⊢
      have hrow : (shared.keep b).rows[shared.rows.size]? = some b := Array.getElem?_push_size
      obtain ⟨out', hrest⟩ := ih (shared.keep b) hfault hopen
      rw [hsize] at hrest
      refine ⟨out', hnext ?_⟩
      rw [Pipe.step_share_behind rfl hfault hrow fun hnone => absurd hnone (Option.some_ne_none b)]
      refine .yield ?_
      show ((Pipe.share (shared.keep b) q (.replay .active (shared.rows.size + 1))).step ctx none
        state).ComesTo ctx out' _
      rwa [Pipe.step_share_ahead rfl hfault (hsize ▸ hahead (shared.keep b)) hopen]

end Stages

/-! ## Limits -/

/-- What someone who drains a pipeline gets: its rows, if it buffers a number of rows that the limit
has room for, and else the refusal of the first row that is too many. No limit is written as
zero. -/
def upTo (limit count : Nat) (rows : List Binding) : Outcome (List Binding) :=
  if limit = 0 ∨ count ≤ limit then .value rows else .failed (.tooLarge (limit + 1) limit)

section Limits

variable {ctx : Context} {p : Pipe} {state out : RunState} {rows : List Binding} {f : Flow}

theorem upTo_eq_outcome {limit count : Nat} (cut : List Binding) :
    (if limit = 0 ∨ count ≤ limit then Flow.ofRows rows
      else .ofRows cut ++ .fail (.tooLarge (limit + 1) limit)).outcome = upTo limit count rows := by
  unfold upTo
  split
  · exact Flow.outcome_ofRows rows
  · exact outcome_fail cut _

variable (h : (p.step ctx none state).ComesTo ctx out (.ofRows rows))

include h

theorem order_drains_upTo (hout : out.cancelled = false) (keys : List SortKey) :
    (Pipe.order .created keys (.gathering #[]) p).DrainsFrom ctx state
      (upTo ctx.maxRows rows.length (rows.mergeSort (sortsBefore keys))) := by
  obtain ⟨out', horder⟩ := orderStep_comesTo h hout keys []
  rw [Flow.gather_ofRows _ _ _ (.inr (Nat.zero_le _)), List.nil_append, List.length_nil,
    Nat.zero_add, Flow.sorted, sorted_keyed] at horder
  have hstep : (Pipe.order .created keys (.gathering #[]) p).step ctx none state =
      orderStep ctx keys (keyedRows keys []) (p.step ctx none state) :=
    Pipe.step_order_gathering rfl
  rw [← hstep] at horder
  rw [← upTo_eq_outcome []]
  exact horder.drains

/-- A join over a right side that comes to rows. -/
theorem joining_comesTo (kind : JoinKind) (condition : Option Expr) (left : Pipe)
    (k : List Binding → Flow)
    (hk : ∀ right, ctx.maxRows = 0 ∨ rows.length ≤ ctx.maxRows →
      ∃ out', (joinGathered kind condition rows.toArray left right out).ComesTo ctx out' (k rows)) :
    ∃ out', ((Pipe.joining kind condition left p).step ctx none state).ComesTo ctx out'
      (if ctx.maxRows = 0 ∨ rows.length ≤ ctx.maxRows then k rows
        else .fail (.tooLarge (ctx.maxRows + 1) ctx.maxRows)) := by
  obtain ⟨out', hjoin⟩ := joinRightStep_comesTo h [] (.inr (Nat.zero_le _))
    fun rest right hrest hfits => by
      rw [List.length_nil, Nat.zero_add] at hfits
      obtain rfl : rows = rest := by rw [← Flow.rows_ofRows rows, hrest, Flow.rows_ofRows]
      exact hk right hfits
  rw [Flow.gather_ofRows _ _ _ (.inr (Nat.zero_le _)), List.nil_append, List.length_nil,
    Nat.zero_add] at hjoin
  refine ⟨out', ?_⟩
  rw [Pipe.joining, Pipe.step_join_gathering rfl]
  exact hjoin

theorem join_refuses (kind : JoinKind) (condition : Option Expr) (left : Pipe)
    (hpos : 0 < ctx.maxRows) (hmany : ctx.maxRows < rows.length) :
    (Pipe.joining kind condition left p).DrainsFrom ctx state
      (.failed (.tooLarge (ctx.maxRows + 1) ctx.maxRows)) := by
  obtain ⟨out', hjoin⟩ := joining_comesTo h kind condition left (fun _ => .done)
    fun _ hfits => by omega
  rw [if_neg (by omega)] at hjoin
  exact hjoin.drains

theorem join_drains_upTo (kind : JoinKind) (condition : Option Expr) {left : Pipe}
    {last : RunState} {lefts : List Binding}
    (hleft : (left.step ctx none out).ComesTo ctx last (.ofRows lefts)) :
    ∃ joined, (Pipe.joining kind condition left p).DrainsFrom ctx state
      (upTo ctx.maxRows rows.length joined) := by
  obtain ⟨joined, hjoined⟩ : ∃ joined, (Flow.ofRows lefts).joinWith kind condition rows =
      .ofRows joined := by
    unfold Flow.joinWith
    split
    · exact ⟨[], rfl⟩
    · exact ⟨_, Flow.ofRows_expand lefts _⟩
  obtain ⟨out', hjoin⟩ := joining_comesTo h kind condition left _
    fun right _ => joinGathered_comesTo hleft rows right
  rw [hjoined] at hjoin
  refine ⟨joined, ?_⟩
  rw [← upTo_eq_outcome []]
  exact hjoin.drains

theorem share_drains_upTo (limit readers : Nat) :
    (Pipe.share ⟨#[], false, none, readers, limit⟩ p (.replay .created 0)).DrainsFrom ctx state
      (upTo limit rows.length rows) := by
  obtain ⟨out', hshare⟩ := shareRead_comesTo h ⟨#[], false, none, readers, limit⟩ rfl rfl
  have hstep : (Pipe.share ⟨#[], false, none, readers, limit⟩ p (.replay .created 0)).step ctx none
      state = shareRead ⟨#[], false, none, readers, limit⟩ (.replay .active 0) []
        (p.step ctx none state) := Pipe.step_share_ahead rfl rfl rfl rfl
  have hlimit := Flow.limit_ofRows (m := limit) rows 0 (.inr (Nat.zero_le _))
  rw [Nat.zero_add, Nat.sub_zero] at hlimit
  have hrun : ((Pipe.share ⟨#[], false, none, readers, limit⟩ p (.replay .created 0)).step ctx none
      state).ComesTo ctx out' ((Flow.ofRows rows).limit limit 0) := hstep ▸ hshare
  rw [hlimit] at hrun
  rw [← upTo_eq_outcome (rows.take limit)]
  exact hrun.drains

theorem distinct_comesTo (limit : Nat) :
    ∃ out', ((Pipe.distinct .created [] limit p).step ctx none state).ComesTo ctx out'
      (if limit = 0 ∨ rows.eraseDups.length ≤ limit then .ofRows rows.eraseDups
        else .ofRows (rows.eraseDups.take limit) ++ .fail (.tooLarge (limit + 1) limit)) := by
  obtain ⟨out', hdistinct⟩ := distinctStep_comesTo h [] limit
  have hall : (rows.filter fun b => !([] : List Binding).contains b) = rows :=
    List.filter_eq_self.2 fun _ _ => rfl
  rw [Flow.distinct_ofRows, hall, List.length_nil, Flow.limit_ofRows _ _ (.inr (Nat.zero_le _)),
    Nat.zero_add, Nat.sub_zero] at hdistinct
  refine ⟨out', ?_⟩
  rwa [Pipe.step_distinct rfl]

theorem distinct_drains_upTo (limit : Nat) :
    (Pipe.distinct .created [] limit p).DrainsFrom ctx state
      (upTo limit rows.eraseDups.length rows.eraseDups) := by
  obtain ⟨out', hdistinct⟩ := distinct_comesTo h limit
  rw [← upTo_eq_outcome (rows.eraseDups.take limit)]
  exact hdistinct.drains

/-- A removal of duplicates that is refused a row has given out those before. -/
theorem distinct_replies {limit : Nat} (hpos : 0 < limit)
    (hmany : limit < rows.eraseDups.length) : ∃ n, ∀ fuel log, n ≤ fuel →
      ((Held.mk (.distinct .created [] limit p) state log).run ctx
        (List.replicate (limit + 1) (.next fuel))).1.map (·.2) =
          (rows.eraseDups.take limit).map (fun b => some (.value (some b))) ++
            [some (.failed (.tooLarge (limit + 1) limit))] := by
  obtain ⟨out', hdistinct⟩ := distinct_comesTo h limit
  rw [if_neg (by omega)] at hdistinct
  obtain ⟨n, hn⟩ := hdistinct.replies
  rw [Flow.replies_ofRows_append, List.length_append, List.length_map, List.length_take,
    Nat.min_eq_left (Nat.le_of_lt hmany)] at hn
  exact ⟨n, hn⟩

end Limits

/-- A shared input with some readers, none of which has been asked. -/
theorem SharedSeed.repeat_addReader (p : Pipe) (limit k : Nat) :
    Nat.repeat addReader k (.ofInput p limit) =
      ⟨⟨#[], false, none, k, limit⟩, p, List.replicate k (.replay .created 0)⟩ := by
  induction k with
  | zero => rfl
  | succ k ih =>
    rw [Nat.repeat, ih, List.replicate_succ']
    rfl

/-- **Limits on buffers are exact.** Let someone who drains a pipeline get some rows. Take a stage
over this pipeline, from the same state of the run on. Who drains it gets everything if the limit is
zero or not less than the number of rows that the stage buffers, and else is refused the first row
that is too many. That number is the number of rows for a sort, by any keys, if nobody cancels the
run, for a join of any kind and condition with this pipeline as its right side, and for the reader
of a shared input that is the first one to be asked, whatever others there are. The left side of the
join has to be drained in turn, unless the join is refused: then it can be any pipeline. For a
removal of duplicates it is the number of different rows; if that is refused a row, it has answered
with those before, in the order of their first occurrence. -/
theorem buffers_up_to_limit {ctx : Context} {p : Pipe} {state : RunState} {fuel : Nat}
    {log : Array Event} {rows : List Binding}
    (hrows : (p.drain ctx fuel state log).outcome = .value rows) :
    ((p.drain ctx fuel state log).state.cancelled = false → ∀ keys,
      (Pipe.order .created keys (.gathering #[]) p).DrainsFrom ctx state
        (upTo ctx.maxRows rows.length (rows.mergeSort (sortsBefore keys)))) ∧
      (∀ kind condition left,
        (0 < ctx.maxRows → ctx.maxRows < rows.length →
          (Pipe.joining kind condition left p).DrainsFrom ctx state
            (.failed (.tooLarge (ctx.maxRows + 1) ctx.maxRows))) ∧
        ∀ fuel' log' lefts,
          (left.drain ctx fuel' (p.drain ctx fuel state log).state log').outcome = .value lefts →
            ∃ joined, (Pipe.joining kind condition left p).DrainsFrom ctx state
              (upTo ctx.maxRows rows.length joined)) ∧
      (∀ limit readers i, i < readers → ∃ n, ∀ fuel' log',
        ((Nat.repeat SharedSeed.addReader readers (.ofInput p limit)).drain ctx fuel' i state
          log').outcome = if n ≤ fuel' then upTo limit rows.length rows else .stalled) ∧
      ∀ limit,
        (Pipe.distinct .created [] limit p).DrainsFrom ctx state
          (upTo limit rows.eraseDups.length rows.eraseDups) ∧
        (0 < limit → limit < rows.eraseDups.length → ∃ n, ∀ fuel' log', n ≤ fuel' →
          ((Held.mk (.distinct .created [] limit p) state log').run ctx
            (List.replicate (limit + 1) (.next fuel'))).1.map (·.2) =
              (rows.eraseDups.take limit).map (fun b => some (.value (some b))) ++
                [some (.failed (.tooLarge (limit + 1) limit))]) := by
  have hp := Pipe.comesTo_of_drain hrows
  refine ⟨fun hout keys => order_drains_upTo hp hout keys, fun kind condition left =>
    ⟨join_refuses hp kind condition left, fun fuel' log' lefts hlefts =>
      join_drains_upTo hp kind condition (Pipe.comesTo_of_drain hlefts)⟩,
    fun limit readers i hi => ?_,
    fun limit => ⟨distinct_drains_upTo hp limit, distinct_replies hp⟩⟩
  obtain ⟨n, hn⟩ := share_drains_upTo hp limit readers
  refine ⟨n, fun fuel' log' => ?_⟩
  rw [SharedSeed.repeat_addReader, SharedSeed.drain]
  dsimp only
  rw [List.getElem?_replicate, if_pos hi]
  exact hn fuel' log'

namespace Instance

/-- Room for two rows. -/
def tight : Config := { Config.standard with maxRows := 2 }

/-- As many rows as there is room for. -/
def pair : List Binding := [.single x a, .single y a]

/-- Four rows, three of them different. -/
def repeating : List Binding := [.single x a, .single x b, .single x a, .single y a]

end Instance

open Instance in
theorem buffers_up_to_limit_repeating :
    let p : Pipe := .bindings .created repeating
    let ctx := context edges tight
    (Pipe.order .created [] (.gathering #[]) p).DrainsFrom ctx .initial (.failed (.tooLarge 3 2)) ∧
      (∀ left, (Pipe.joining .left none left p).DrainsFrom ctx .initial
        (.failed (.tooLarge 3 2))) ∧
      (∃ joined, (Pipe.joining .inner none p (.bindings .created pair)).DrainsFrom ctx .initial
        (.value joined)) ∧
      (∃ n, ∀ fuel log, ((SharedSeed.ofInput p 4).addReader.drain ctx fuel 0 .initial log).outcome =
        if n ≤ fuel then .value repeating else .stalled) ∧
      (∃ n, ∀ fuel log, ((SharedSeed.ofInput p 3).addReader.drain ctx fuel 0 .initial log).outcome =
        if n ≤ fuel then .failed (.tooLarge 4 3) else .stalled) ∧
      (Pipe.distinct .created [] 3 p).DrainsFrom ctx .initial
        (.value [.single x a, .single x b, .single y a]) ∧
      ∃ n, ∀ fuel log, n ≤ fuel →
        ((Held.mk (.distinct .created [] 2 p) .initial log).run ctx
          (List.replicate 3 (.next fuel))).1.map (·.2) =
            [some (.value (some (.single x a))), some (.value (some (.single x b))),
              some (.failed (.tooLarge 3 2))] := by
  intro p ctx
  have hrows : (p.drain ctx 5 .initial #[]).outcome = .value repeating := rfl
  have hpair : ((Pipe.bindings .created pair).drain ctx 3 .initial #[]).outcome = .value pair := rfl
  obtain ⟨horder, hjoin, hshare, hdistinct⟩ := buffers_up_to_limit hrows
  obtain ⟨-, hjoins, -⟩ := buffers_up_to_limit hpair
  obtain ⟨joined, hjoined⟩ := (hjoins .inner none p).2 5 #[] repeating hrows
  exact ⟨horder rfl [], fun left => (hjoin .left none left).1 (by decide) (by decide),
    ⟨joined, hjoined⟩, hshare 4 1 0 Nat.one_pos, hshare 3 1 0 Nat.one_pos, (hdistinct 3).1,
    (hdistinct 2).2 (by decide) (by decide)⟩

end TripleQuery
