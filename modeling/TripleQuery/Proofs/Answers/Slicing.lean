import TripleQuery.Proofs.Answers.SingleUse
import TripleQuery.Proofs.Answers.Tracking

/-!
# Slices

A slice gives out exactly the rows it is to give out, and reads no further
(`Pipe.slice_exact`), whatever its input is and wherever that fails.

1. What the slice is to answer with depends only on what its input has to say, in order: rows and
   failures (`Pipe.Responds`). It is asked for these up to the last row of the slice
   (`ScriptItem.window`), and the slice passes them on, but for the rows in front
   (`ScriptItem.slice`).
2. Asking a slice comes to asking its input (`Pipe.next_fed`), and again for each row that is still
   to be left out. Its answer is the first of these items (`Pipe.next_slice`).
3. So any number of questions is answered by as many of them.
-/

namespace TripleQuery

/-! ## Rows and failures -/

namespace ScriptItem

/-- The answer of a pipeline that comes to the item. -/
def outcome : ScriptItem → Outcome (Option Binding)
  | row b => .value (some b)
  | fail e => .failed e

/-- The row that the item is, if it is one. -/
def row? : ScriptItem → Option Binding
  | row b => some b
  | fail _ => none

/-- The rows among some items. -/
def rows (items : List ScriptItem) : List Binding := items.filterMap row?

/-- The items up to a row, given its number. -/
def takeRows : Nat → List ScriptItem → List ScriptItem
  | 0, _ => []
  | _ + 1, [] => []
  | n + 1, row b :: rest => row b :: takeRows n rest
  | n + 1, fail e :: rest => fail e :: takeRows (n + 1) rest

/-- The items without their first rows. The failures between these stay. -/
def dropRows : Nat → List ScriptItem → List ScriptItem
  | 0, items => items
  | _ + 1, [] => []
  | n + 1, row _ :: rest => dropRows n rest
  | n + 1, fail e :: rest => fail e :: dropRows (n + 1) rest

/-- The items that a slice needs: those up to its last row, and none if it is to have no rows. -/
def window (offset : Nat) : Option Nat → List ScriptItem → List ScriptItem
  | none, items => items
  | some 0, _ => []
  | some (l + 1), items => takeRows (offset + (l + 1)) items

/-- The items that a slice passes on. -/
def slice (offset : Nat) (limit : Option Nat) (items : List ScriptItem) : List ScriptItem :=
  dropRows offset (window offset limit items)

/-- How many rows are still to come after the item, if that is limited. -/
def spend (limit : Option Nat) : ScriptItem → Option Nat
  | row _ => limit.map (· - 1)
  | fail _ => limit

section Lemmas

variable {offset l : Nat} {limit : Option Nat} {b : Binding} {e : ExecError}
  {rest : List ScriptItem}

@[simp] theorem rows_nil : rows [] = [] := rfl

@[simp] theorem rows_row : rows (row b :: rest) = b :: rows rest := rfl

@[simp] theorem rows_fail : rows (fail e :: rest) = rows rest := rfl

theorem rows_takeRows (n : Nat) (items : List ScriptItem) :
    rows (takeRows n items) = (rows items).take n := by
  induction n, items using takeRows.induct with
  | case1 items => rw [takeRows, List.take_zero, rows_nil]
  | case2 n => rw [takeRows, rows_nil, List.take_nil]
  | case3 n b rest ih => rw [takeRows, rows_row, rows_row, ih, List.take_succ_cons]
  | case4 n e rest ih => rw [takeRows, rows_fail, rows_fail, ih]

theorem rows_dropRows (n : Nat) (items : List ScriptItem) :
    rows (dropRows n items) = (rows items).drop n := by
  induction n, items using dropRows.induct with
  | case1 items => rw [dropRows, List.drop_zero]
  | case2 n => rw [dropRows, rows_nil, List.drop_nil]
  | case3 n b rest ih => rw [dropRows, rows_row, ih, List.drop_succ_cons]
  | case4 n e rest ih => rw [dropRows, rows_fail, rows_fail, ih]

/-- The rows of a slice: those behind the offset, up to the limit. -/
theorem rows_slice (offset : Nat) (limit : Option Nat) (items : List ScriptItem) :
    rows (slice offset limit items) =
      limit.elim ((rows items).drop offset) ((rows items).drop offset).take := by
  rw [slice, rows_dropRows]
  match limit with
  | none => rfl
  | some 0 => rw [window, rows_nil, List.drop_nil, Option.elim_some, List.take_zero]
  | some (l + 1) =>
    rw [window, rows_takeRows, Option.elim_some, List.drop_take, Nat.add_sub_cancel_left]

@[simp] theorem window_nil : window offset limit [] = [] := by
  match limit with
  | none => rfl
  | some 0 => rfl
  | some (l + 1) => rw [window, ← Nat.add_assoc, takeRows]

theorem window_fail (h : limit ≠ some 0) :
    window offset limit (fail e :: rest) = fail e :: window offset limit rest := by
  match limit, h with
  | none, _ => rfl
  | some (l + 1), _ => rfl

theorem window_succ_row (h : limit ≠ some 0) :
    window (offset + 1) limit (row b :: rest) = row b :: window offset limit rest := by
  match limit, h with
  | none, _ => rfl
  | some (l + 1), _ =>
    rw [window, window, Nat.add_right_comm]
    rfl

theorem window_zero_row (h : limit ≠ some 0) :
    window 0 limit (row b :: rest) = row b :: window 0 (limit.map (· - 1)) rest := by
  match limit, h with
  | none, _ => rfl
  | some 1, _ =>
    show takeRows 1 (row b :: rest) = [row b]
    rw [takeRows, takeRows]
  | some (l + 2), _ =>
    show takeRows (0 + (l + 2)) (row b :: rest) = row b :: takeRows (0 + (l + 1)) rest
    rw [Nat.zero_add, Nat.zero_add, takeRows]

@[simp] theorem slice_zero (items : List ScriptItem) : slice offset (some 0) items = [] := by
  unfold slice window
  cases offset <;> rfl

@[simp] theorem slice_nil : slice offset limit [] = [] := by
  rw [slice, window_nil]
  cases offset <;> rfl

theorem slice_fail (h : limit ≠ some 0) :
    slice offset limit (fail e :: rest) = fail e :: slice offset limit rest := by
  rw [slice, slice, window_fail h]
  cases offset with
  | zero => rw [dropRows, dropRows]
  | succ offset => rw [dropRows]

theorem slice_succ_row (h : limit ≠ some 0) :
    slice (offset + 1) limit (row b :: rest) = slice offset limit rest := by
  rw [slice, window_succ_row h]
  rfl

theorem slice_zero_row (h : limit ≠ some 0) :
    slice 0 limit (row b :: rest) = row b :: slice 0 (limit.map (· - 1)) rest := by
  rw [slice, slice, window_zero_row h, dropRows, dropRows]

end Lemmas

end ScriptItem

/-- Asked for one row after the other, the pipeline answers with the items, and then it ends. -/
def Pipe.Responds (ctx : Context) (n : Nat) : Pipe → RunState → List ScriptItem → Prop
  | p, state, [] => (p.next ctx n state #[]).outcome = .value none
  | p, state, item :: rest =>
    (p.next ctx n state #[]).outcome = item.outcome ∧
      (p.next ctx n state #[]).subject.Responds ctx n (p.next ctx n state #[]).state rest

/-! ## Asking through a stage -/

section Feeding

variable {ctx : Context}

/-- The answer to a question whose first step is given; `fuel` is for the others. -/
def Step.answer (ctx : Context) (fuel : Nat) (log : Array Event) (s : Step) :
    Answer Pipe (Option Binding) :=
  match s.signal with
  | .skip => s.pipe.next ctx fuel s.state (log ++ s.events)
  | .yield row => ⟨.value (some row), s.pipe, log ++ s.events, s.state⟩
  | .done => ⟨.value none, s.pipe, log ++ s.events, s.state⟩
  | .fail e => ⟨.failed e, s.pipe, log ++ s.events, s.state⟩
  | .await => ⟨.stalled, s.pipe, log ++ s.events, s.state⟩

theorem Pipe.next_succ (fuel : Nat) (p : Pipe) (state : RunState) (log : Array Event) :
    p.next ctx (fuel + 1) state log = (p.step ctx none state).answer ctx fuel log := rfl

theorem Step.answer_after (fuel : Nat) (log : Array Event) (events : List Event) (s : Step) :
    (s.after events).answer ctx fuel log = s.answer ctx fuel (log ++ events) := by
  unfold answer after
  simp only [append_more_events]

/-- The signal that an answer is for a stage above. -/
def Outcome.signal : Outcome (Option Binding) → Signal
  | .value (some b) => .yield b
  | .value none => .done
  | .failed e => .fail e
  | .stalled => .await

/-- **Asking a stage** that feeds on an input is asking the input. The stage handles its answer, as
if that had come in one step, and has all fuel left that the input does not need. -/
theorem Pipe.next_fed {hold : Pipe → Pipe} {onRow : Binding → Pipe → RunState → Step}
    {onEnd : Pipe → RunState → Step}
    (hhold : ∀ q state, (hold q).step ctx none state =
      (q.step ctx none state).feed hold onRow onEnd)
    {n fuel : Nat} {top p : Pipe} {state : RunState} (log : Array Event)
    (htop : top.step ctx none state = (p.step ctx none state).feed hold onRow onEnd)
    (h : (p.next ctx n state log).outcome ≠ .stalled) (hfuel : n ≤ fuel) :
    ∃ left, fuel ≤ left + n ∧ top.next ctx fuel state log =
      ((Step.quiet (p.next ctx n state log).outcome.signal (p.next ctx n state log).subject
        (p.next ctx n state log).state).feed hold onRow onEnd).answer ctx left
          (p.next ctx n state log).log := by
  induction n generalizing top p state log fuel with
  | zero => exact absurd rfl h
  | succ n ih =>
    obtain ⟨fuel, rfl⟩ := Nat.exists_eq_add_one_of_ne_zero (Nat.ne_of_gt (Nat.zero_lt_of_lt hfuel))
    have hleft : n ≤ fuel := Nat.le_of_succ_le_succ hfuel
    have hspare : fuel + 1 ≤ fuel + (n + 1) := Nat.add_le_add_left (Nat.succ_pos n) fuel
    rw [next_succ] at h ⊢
    rw [next_succ, htop]
    generalize p.step ctx none state = s at h ⊢
    obtain ⟨signal, q, events, state'⟩ := s
    cases signal with
    | skip =>
      obtain ⟨left, hle, hnext⟩ := ih _ (hhold q state') h hleft
      exact ⟨left, Nat.succ_le_succ hle, hnext⟩
    | yield b =>
      refine ⟨fuel, hspare, ?_⟩
      show ((onRow b q state').after events).answer ctx fuel log =
        ((onRow b q state').after []).answer ctx fuel (log ++ events)
      rw [Step.answer_after, Step.answer_after, Array.appendList_nil]
    | done =>
      refine ⟨fuel, hspare, ?_⟩
      show ((onEnd q state').after events).answer ctx fuel log =
        ((onEnd q state').after []).answer ctx fuel (log ++ events)
      rw [Step.answer_after, Step.answer_after, Array.appendList_nil]
    | fail e =>
      exact ⟨fuel, hspare, congrArg (Answer.mk _ _ · _) Array.appendList_nil.symm⟩
    | await => exact absurd rfl h

end Feeding

/-! ## Asking a slice -/

section Asking

open ScriptItem (rows window slice spend)

variable {a : Allowance} {ctx : Context} {id : String} {n : Nat}

/-- The answer of a slice that watches its input, if the input is to respond with some items. It is
the first of those that the slice passes on, and the input is closed with the last row. Or there is
none, and the input is closed. -/
inductive Answer.Slices (a : Allowance) (ctx : Context) (id : String) (n skip : Nat)
    (limit : Option Nat) (items : List ScriptItem) (log : Array Event) :
    Answer Pipe (Option Binding) → Prop
  | item {item : ScriptItem} {skip' : Nat} {rest : List ScriptItem} {p : Pipe} {own : List Event}
    {state : RunState} (hskip : skip' ≤ skip)
    (hitems : slice skip limit items = item :: slice skip' (item.spend limit) rest)
    (hp : p.Within a) (hrest : item.spend limit ≠ some 0 → p.Responds ctx n state rest)
    (hrequests : requests id own + (window skip' (item.spend limit) rest).length =
      (window skip limit items).length)
    (hreports : reports id own = if item.spend limit = some 0 then 1 else 0) :
    Slices a ctx id n skip limit items log
      ⟨item.outcome, .slice .active skip' (item.spend limit) (.tracked id false p), log ++ own,
        state⟩
  | ended {skip' : Nat} {p : Pipe} {own : List Event} {state : RunState}
    (hitems : slice skip limit items = []) (hrequests : limit = some 0 → requests id own = 0)
    (hreports : reports id own = 1) :
    Slices a ctx id n skip limit items log
      ⟨.value none, .slice .exhausted skip' limit p, log ++ own, state⟩

theorem Answer.Slices.outcome {skip : Nat} {limit : Option Nat} {items : List ScriptItem}
    {log : Array Event} {answer : Answer Pipe (Option Binding)}
    (h : answer.Slices a ctx id n skip limit items log) :
    answer.outcome = (slice skip limit items)[0]?.elim (.value none) ScriptItem.outcome := by
  cases h with
  | item _ hitems => rw [hitems, List.getElem?_cons_zero, Option.elim_some]
  | ended hitems => rw [hitems, List.getElem?_nil, Option.elim_none]

/-- Leaving a row out is the beginning of an answer. -/
theorem Answer.Slices.leaving {skip : Nat} {limit : Option Nat} (hlimit : limit ≠ some 0)
    {b : Binding} {rest : List ScriptItem} {log : Array Event} {own : List Event}
    (hrequests : requests id own = 1) (hreports : reports id own = 0)
    {answer : Answer Pipe (Option Binding)}
    (h : answer.Slices a ctx id n skip limit rest (log ++ own)) :
    answer.Slices a ctx id n (skip + 1) limit (.row b :: rest) log := by
  cases h with
  | item hskip hitems hp hrest hmore hmore' =>
    rw [append_more_events]
    refine .item (Nat.le_succ_of_le hskip) ?_ hp hrest ?_ ?_
    · rw [ScriptItem.slice_succ_row hlimit, hitems]
    · rw [ScriptItem.window_succ_row hlimit, List.length_cons, requests_append, hrequests, ← hmore]
      omega
    · rw [reports_append, hreports, hmore', Nat.zero_add]
  | ended hitems _ hmore' =>
    rw [append_more_events]
    refine .ended ?_ (absurd · hlimit) ?_
    · rw [ScriptItem.slice_succ_row hlimit, hitems]
    · rw [reports_append, hreports, hmore', Nat.zero_add]

namespace Pipe

variable {p : Pipe} {state : RunState} {phase : Phase} {skip fuel : Nat} {limit : Option Nat}
  {items : List ScriptItem}

/-- A watched input responds with its first item, and is seen to be asked. -/
theorem Responds.next (h : p.Responds ctx n state items) (hctx : a.Realized ctx)
    (hid : ¬ a.tracker id) (hp : p.Within a) (log : Array Event) :
    ∃ q own state', q.Within a ∧ requests id own = 1 ∧ reports id own = 0 ∧
      (tracked id false p).next ctx n state log =
        ⟨(items.head?.elim (.value none) ScriptItem.outcome), .tracked id false q, log ++ own,
          state'⟩ ∧
      (items ≠ [] → q.Responds ctx n state' items.tail) := by
  cases items with
  | nil =>
    have houtcome : (p.next ctx n state #[]).outcome = .value none := h
    have hanswers : (p.next ctx n state #[]).outcome ≠ .stalled := houtcome ▸ nofun
    obtain ⟨hq, own, hrequests, hreports, hnext⟩ := next_tracked hctx hid hp hanswers false log
    rw [houtcome] at hnext
    exact ⟨_, own, _, hq, hrequests, hreports, hnext, absurd rfl⟩
  | cons item rest =>
    obtain ⟨houtcome, hrest⟩ := h
    have hanswers : (p.next ctx n state #[]).outcome ≠ .stalled := by
      rw [houtcome]
      cases item <;> nofun
    obtain ⟨hq, own, hrequests, hreports, hnext⟩ := next_tracked hctx hid hp hanswers false log
    rw [houtcome] at hnext
    exact ⟨_, own, _, hq, hrequests, hreports, hnext, fun _ => hrest⟩

/-- Closing a watched input is seen. -/
theorem Within.close_tracked (hp : p.Within a) (hid : ¬ a.tracker id) :
    ∃ q events, q.Within a ∧ requests id events = 0 ∧ reports id events = 1 ∧
      (tracked id false p).close = (.tracked id false q, events) := by
  obtain ⟨hq, hevents⟩ := hp.close
  obtain ⟨hrequests, hreports⟩ := a.untraced hid hevents
  have hseen : Event.reports id (.closed id) = true := beq_self_eq_true id
  refine ⟨p.close.1, .closed id :: p.close.2, hq, hrequests, ?_, rfl⟩
  exact (List.countP_cons_of_pos hseen).trans (congrArg (· + 1) hreports)

/-- Asking a slice is asking its input first. -/
theorem Responds.next_slice_fed (h : p.Responds ctx n state items) (hctx : a.Realized ctx)
    (hid : ¬ a.tracker id) (hp : p.Within a) (hlimit : limit ≠ some 0)
    (hphase : phase.isDone = false) (skip : Nat) (hfuel : n ≤ fuel) (log : Array Event) :
    ∃ left q own state', fuel ≤ left + n ∧ q.Within a ∧ requests id own = 1 ∧
      reports id own = 0 ∧ (items ≠ [] → q.Responds ctx n state' items.tail) ∧
      (slice phase skip limit (.tracked id false p)).next ctx fuel state log =
        (sliceStep skip limit (.quiet (items.head?.elim (.value none) ScriptItem.outcome).signal
          (.tracked id false q) state')).answer ctx left (log ++ own) := by
  obtain ⟨q, own, state', hq, hrequests, hreports, hnext, hrest⟩ := h.next hctx hid hp log
  have hanswers : ((tracked id false p).next ctx n state log).outcome ≠ .stalled := by
    rw [hnext]
    rcases items with _ | ⟨_ | _, _⟩ <;> nofun
  obtain ⟨left, hle, hanswer⟩ := next_fed (fun q state => step_slice rfl hlimit) log
    (step_slice hphase hlimit) hanswers hfuel
  rw [hnext] at hanswer
  exact ⟨left, q, own, state', hle, hq, hrequests, hreports, hrest, hanswer⟩

/-- A slice after a row that is its last one. -/
theorem sliceRow_last {b : Binding} {input : Pipe} (hlast : limit.map (· - 1) = some 0) :
    sliceRow 0 limit b input state =
      ⟨.yield b, .slice .active 0 (limit.map (· - 1)) input.close.1, input.close.2, state⟩ := by
  match limit, hlast with
  | some l, hlast =>
    have hl : l ≤ 1 := Nat.sub_eq_zero_iff_le.1 (Option.some.inj hlast)
    rw [hlast]
    exact if_pos hl

/-- A slice after a row that is none of its last ones. -/
theorem sliceRow_more {b : Binding} {input : Pipe} (hlast : limit.map (· - 1) ≠ some 0) :
    sliceRow 0 limit b input state =
      .quiet (.yield b) (.slice .active 0 (limit.map (· - 1)) input) state := by
  match limit, hlast with
  | none, _ => rfl
  | some l, hlast =>
    have hl : ¬ l ≤ 1 := fun hle => hlast (congrArg some (Nat.sub_eq_zero_iff_le.2 hle))
    exact if_neg hl

/-- Giving out a row is an answer, and with the last row the input is closed. -/
theorem sliceRow_slices (hlimit : limit ≠ some 0) (hid : ¬ a.tracker id) (hp : p.Within a)
    {rest : List ScriptItem} (hrest : p.Responds ctx n state rest) {own : List Event}
    (hrequests : requests id own = 1) (hreports : reports id own = 0) (b : Binding)
    (log : Array Event) :
    ((sliceRow 0 limit b (.tracked id false p) state).answer ctx fuel (log ++ own)).Slices a ctx id
      n 0 limit (.row b :: rest) log := by
  have hitems : ScriptItem.slice 0 limit (.row b :: rest) =
      .row b :: ScriptItem.slice 0 (spend limit (.row b)) rest := ScriptItem.slice_zero_row hlimit
  have hwindow : 1 + (window 0 (spend limit (.row b)) rest).length =
      (window 0 limit (.row b :: rest)).length := by
    rw [ScriptItem.window_zero_row hlimit, List.length_cons, Nat.add_comm]
    rfl
  by_cases hlast : limit.map (· - 1) = some 0
  · obtain ⟨q, events, hq, hrequests', hreports', hclose⟩ := hp.close_tracked hid
    rw [sliceRow_last hlast, hclose]
    show Answer.Slices a ctx id n 0 limit (.row b :: rest) log
      ⟨ScriptItem.outcome (.row b), .slice .active 0 (spend limit (.row b)) (.tracked id false q),
        log ++ own ++ events, state⟩
    rw [append_more_events]
    refine .item (Nat.le_refl 0) hitems hq (absurd hlast) ?_ ?_
    · rw [requests_append, hrequests, hrequests', hwindow]
    · rw [reports_append, hreports, hreports']
      exact (if_pos hlast).symm
  · rw [sliceRow_more hlast]
    show Answer.Slices a ctx id n 0 limit (.row b :: rest) log
      ⟨ScriptItem.outcome (.row b), .slice .active 0 (spend limit (.row b)) (.tracked id false p),
        log ++ own ++ [], state⟩
    rw [Array.appendList_nil]
    exact .item (Nat.le_refl 0) hitems hp (fun _ => hrest) (hrequests ▸ hwindow)
      (hreports.trans (if_neg hlast).symm)

/-- Having nothing more to give is an answer, with which the input is closed. -/
theorem finish_slices (hid : ¬ a.tracker id) (hp : p.Within a)
    (hitems : ScriptItem.slice skip limit items = []) {own : List Event}
    (hrequests : limit = some 0 → requests id own = 0) (hreports : reports id own = 0)
    (log : Array Event) :
    ((Step.finish (.slice .exhausted skip limit) (.tracked id false p) state).answer ctx fuel
      (log ++ own)).Slices a ctx id n skip limit items log := by
  obtain ⟨q, events, -, hrequests', hreports', hclose⟩ := hp.close_tracked hid
  unfold Step.finish
  rw [hclose]
  show Answer.Slices a ctx id n skip limit items log
    ⟨.value none, .slice .exhausted skip limit (.tracked id false q), log ++ own ++ events, state⟩
  rw [append_more_events]
  refine .ended hitems (fun hzero => ?_) ?_
  · rw [requests_append, hrequests hzero, hrequests']
  · rw [reports_append, hreports, hreports']

/-- **One question.** A slice that has not ended and is still to give rows answers with what its
input responds, behind the rows that are left out. -/
theorem Responds.next_slice (h : p.Responds ctx n state items) (hctx : a.Realized ctx)
    (hid : ¬ a.tracker id) (hp : p.Within a) (hlimit : limit ≠ some 0)
    (hphase : phase.isDone = false) (hfuel : n * (skip + 1) ≤ fuel) (log : Array Event) :
    ((slice phase skip limit (.tracked id false p)).next ctx fuel state log).Slices a ctx id n skip
      limit items log := by
  induction items generalizing p state phase skip fuel log with
  | nil =>
    have hn : n ≤ fuel := Nat.le_trans (Nat.le_mul_of_pos_right n (Nat.succ_pos skip)) hfuel
    obtain ⟨left, q, own, state', -, hq, -, hreports, -, hnext⟩ :=
      h.next_slice_fed hctx hid hp hlimit hphase skip hn log
    rw [hnext]
    show (((Step.finish (.slice .exhausted skip limit) (.tracked id false q) state').after
      []).answer ctx left (log ++ own)).Slices a ctx id n skip limit [] log
    rw [Step.answer_after, Array.appendList_nil]
    exact finish_slices hid hq ScriptItem.slice_nil (absurd · hlimit) hreports log
  | cons item rest ih =>
    have hn : n ≤ fuel := Nat.le_trans (Nat.le_mul_of_pos_right n (Nat.succ_pos skip)) hfuel
    obtain ⟨left, q, own, state', hle, hq, hrequests, hreports, hmore, hnext⟩ :=
      h.next_slice_fed hctx hid hp hlimit hphase skip hn log
    have hrest : q.Responds ctx n state' rest := hmore nofun
    rw [hnext]
    match item, skip with
    | .fail e, skip =>
      show Answer.Slices a ctx id n skip limit (.fail e :: rest) log
        ⟨ScriptItem.outcome (.fail e), .slice .active skip (spend limit (.fail e))
          (.tracked id false q), log ++ own ++ [], state'⟩
      rw [Array.appendList_nil]
      refine .item (Nat.le_refl skip) (ScriptItem.slice_fail hlimit) hq (fun _ => hrest) ?_
        (hreports.trans (if_neg hlimit).symm)
      rw [ScriptItem.window_fail hlimit, List.length_cons, hrequests, Nat.add_comm]
      rfl
    | .row b, skip + 1 =>
      have hleft : n * (skip + 1) ≤ left := by
        rw [Nat.mul_succ] at hfuel
        omega
      show ((slice .active skip limit (.tracked id false q)).next ctx left state'
        (log ++ own ++ [])).Slices a ctx id n (skip + 1) limit (.row b :: rest) log
      rw [Array.appendList_nil]
      exact (ih hrest hq rfl hleft _).leaving hlimit hrequests hreports
    | .row b, 0 =>
      show (((sliceRow 0 limit b (.tracked id false q) state').after []).answer ctx left
        (log ++ own)).Slices a ctx id n 0 limit (.row b :: rest) log
      rw [Step.answer_after, Array.appendList_nil]
      exact sliceRow_slices hlimit hid hq hrest hrequests hreports b log

/-- **One question, in general.** A slice that is to give no more rows does not ask its input. -/
theorem next_slice (h : limit ≠ some 0 → p.Responds ctx n state items) (hctx : a.Realized ctx)
    (hid : ¬ a.tracker id) (hp : p.Within a) (hphase : phase.isDone = false) (hpos : 0 < fuel)
    (hfuel : n * (skip + 1) ≤ fuel) (log : Array Event) :
    ((slice phase skip limit (.tracked id false p)).next ctx fuel state log).Slices a ctx id n skip
      limit items log := by
  by_cases hlimit : limit = some 0
  · subst hlimit
    obtain ⟨fuel, rfl⟩ := Nat.exists_eq_add_one_of_ne_zero (Nat.ne_of_gt hpos)
    have hslices : ((Step.finish (.slice .exhausted skip (some 0)) (.tracked id false p)
        state).answer ctx fuel (log ++ ([] : List Event))).Slices a ctx id n skip (some 0) items
          log :=
      finish_slices hid hp (ScriptItem.slice_zero items) (fun _ => rfl) rfl log
    rw [Array.appendList_nil] at hslices
    rw [next_succ, step_slice_zero hphase]
    exact hslices
  · exact (h hlimit).next_slice hctx hid hp hlimit hphase hfuel log

end Pipe

end Asking

/-! ## Any number of questions -/

namespace ScriptItem

/-- How often a slice closes its input while it gives some answers: with the row that is its last
one, and when it says that there is no more. -/
def closings (limit : Option Nat) (sliced : List ScriptItem) (k : Nat) : Nat :=
  (limit.elim 0 fun l => if 0 < l ∧ l ≤ (rows (sliced.take k)).length then 1 else 0) +
    if sliced.length < k then 1 else 0

/-- No limit is reached by no rows. -/
theorem reached_zero (limit : Option Nat) :
    (limit.elim 0 fun l => if 0 < l ∧ l ≤ 0 then 1 else 0) = 0 := by
  cases limit with
  | none => rfl
  | some l => exact if_neg fun h => Nat.not_lt_of_le h.2 h.1

theorem closings_zero (limit : Option Nat) (sliced : List ScriptItem) :
    closings limit sliced 0 = 0 :=
  reached_zero limit

theorem closings_nil (limit : Option Nat) (k : Nat) : closings limit [] (k + 1) = 1 :=
  congrArg (· + 1) (reached_zero limit)

theorem closings_cons {limit : Option Nat} (h : limit ≠ some 0) (item : ScriptItem)
    (sliced : List ScriptItem) (k : Nat) :
    closings limit (item :: sliced) (k + 1) =
      (if item.spend limit = some 0 then 1 else 0) + closings (item.spend limit) sliced k := by
  unfold closings
  rw [List.take_succ_cons, List.length_cons, ← Nat.add_assoc]
  congr 1
  · match item, limit, h with
    | row b, none, _ | fail e, none, _ => rfl
    | row b, some 1, _ =>
      show (if 0 < 1 ∧ 1 ≤ (rows (sliced.take k)).length + 1 then 1 else 0) = 1
      rw [if_pos ⟨Nat.one_pos, Nat.le_add_left 1 _⟩]
    | row b, some (l + 2), _ =>
      show (if 0 < l + 2 ∧ l + 2 ≤ (rows (sliced.take k)).length + 1 then 1 else 0) =
        0 + if 0 < l + 1 ∧ l + 1 ≤ (rows (sliced.take k)).length then 1 else 0
      rw [Nat.zero_add]
      exact if_congr (by omega) rfl rfl
    | fail e, some (l + 1), _ =>
      rw [rows_fail]
      exact (Nat.zero_add _).symm
  · simp only [Nat.add_lt_add_iff_right]

theorem spend_rows (item : ScriptItem) (sliced : List ScriptItem) :
    item.spend (some (rows (item :: sliced)).length) = some (rows sliced).length := by
  cases item <;> rfl

end ScriptItem

namespace Held

open ScriptItem (rows window slice spend closings)

variable {a : Allowance} {ctx : Context} {id : String} {n fuel skip k : Nat} {limit : Option Nat}
  {items : List ScriptItem} {log : Array Event}

/-- A slice after some questions about items that its input is to respond with. -/
structure Sliced (ctx : Context) (id : String) (fuel skip : Nat) (limit : Option Nat)
    (items : List ScriptItem) (log : Array Event) (k : Nat) (h : Held) : Prop where
  reply : (h.use ctx (.next fuel)).1 =
    some ((slice skip limit items)[k]?.elim (.value none) ScriptItem.outcome)
  requested : limit = some (rows (slice skip limit items)).length →
    requests id h.log.toList ≤ requests id log.toList + (window skip limit items).length
  reported : reports id h.log.toList =
    reports id log.toList + closings limit (slice skip limit items) k
  exhausted : h.pipe.phase = .exhausted ↔ (slice skip limit items).length < k

/-- A pipeline that has ended by itself answers that there is no more, and nothing happens. -/
theorem use_spent {p : Pipe} (hspent : p.isSpent = true) (hfuel : 0 < fuel) (state : RunState)
    (log : Array Event) :
    (mk p state log).use ctx (.next fuel) = (some (.value none), mk p state log) := by
  obtain ⟨fuel, rfl⟩ := Nat.exists_eq_add_one_of_ne_zero (Nat.ne_of_gt hfuel)
  have hnext : p.next ctx (fuel + 1) state log = ⟨.value none, p, log, state⟩ := by
    rw [Pipe.next_succ, Pipe.step_spent hspent]
    exact congrArg (Answer.mk _ _ · _) Array.appendList_nil
  exact congrArg (fun a => (some a.outcome, mk a.subject a.state a.log)) hnext

theorem run_spent {p : Pipe} (hspent : p.isSpent = true) (hfuel : 0 < fuel) (state : RunState)
    (log : Array Event) (k : Nat) :
    ((mk p state log).run ctx (List.replicate k (.next fuel))).2 = mk p state log := by
  induction k with
  | zero => rfl
  | succ k ih =>
    rw [List.replicate_succ]
    show (((mk p state log).use ctx (.next fuel)).2.run ctx _).2 = _
    rw [use_spent hspent hfuel]
    exact ih

/-- The answers behind a first one. -/
theorem Sliced.cons {h : Held} {item : ScriptItem} {skip' : Nat} {rest : List ScriptItem}
    {own : List Event} (hlimit : limit ≠ some 0)
    (hitems : slice skip limit items = item :: slice skip' (item.spend limit) rest)
    (hrequests : requests id own + (window skip' (item.spend limit) rest).length =
      (window skip limit items).length)
    (hreports : reports id own = if item.spend limit = some 0 then 1 else 0)
    (hrest : h.Sliced ctx id fuel skip' (item.spend limit) rest (log ++ own) k) :
    h.Sliced ctx id fuel skip limit items log (k + 1) where
  reply := by rw [hrest.reply, hitems, List.getElem?_cons_succ]
  requested hfull := by
    have hspent := congrArg item.spend hfull
    rw [hitems, ScriptItem.spend_rows] at hspent
    have hle := hrest.requested hspent
    rw [Array.toList_appendList, requests_append] at hle
    omega
  reported := by
    rw [hrest.reported, hitems, ScriptItem.closings_cons hlimit, Array.toList_appendList,
      reports_append, hreports, Nat.add_assoc]
  exhausted := by rw [hrest.exhausted, hitems, List.length_cons, Nat.add_lt_add_iff_right]

/-- The slice once it has said that there is no more. -/
theorem Sliced.ended {p : Pipe} {skip' : Nat} {own : List Event} (hpos : 0 < fuel)
    (hitems : slice skip limit items = []) (hrequests : limit = some 0 → requests id own = 0)
    (hreports : reports id own = 1) (state : RunState) :
    (Held.mk (.slice .exhausted skip' limit p) state (log ++ own)).Sliced ctx id fuel skip limit
      items log (k + 1) where
  reply := by
    rw [hitems, List.getElem?_nil, Option.elim_none]
    exact congrArg Prod.fst (use_spent rfl hpos state _)
  requested hfull := by
    rw [hitems] at hfull
    rw [Array.toList_appendList, requests_append, hrequests hfull]
    exact Nat.le_add_right _ _
  reported := by
    rw [Array.toList_appendList, reports_append, hreports, hitems, ScriptItem.closings_nil]
  exhausted := by
    rw [hitems]
    exact iff_of_true rfl (Nat.succ_pos k)

/-- **Any number of questions** about a slice are answered by as many of the items. -/
theorem run_sliced (hctx : a.Realized ctx) (hid : ¬ a.tracker id) (hpos : 0 < fuel) (k : Nat)
    {p : Pipe} {state : RunState} {phase : Phase} (hp : p.Within a)
    (h : limit ≠ some 0 → p.Responds ctx n state items) (hphase : phase.isDone = false)
    (hfuel : n * (skip + 1) ≤ fuel) (log : Array Event) :
    ((mk (.slice phase skip limit (.tracked id false p)) state log).run ctx
      (List.replicate k (.next fuel))).2.Sliced ctx id fuel skip limit items log k := by
  have hslices := Pipe.next_slice h hctx hid hp hphase hpos hfuel log
  induction k generalizing p state phase skip limit items log with
  | zero =>
    refine ⟨congrArg some hslices.outcome, fun _ => Nat.le_add_right _ _, ?_, ?_⟩
    · rw [ScriptItem.closings_zero]
      rfl
    · refine iff_of_false (fun hended : phase = .exhausted => ?_) (Nat.not_lt_zero _)
      rw [hended] at hphase
      cases hphase
  | succ k ih =>
    generalize hanswer : Pipe.next ctx fuel _ state log = answer at hslices
    have huse := congrArg (fun a => mk a.subject a.state a.log) hanswer
    rw [List.replicate_succ]
    show (((mk _ state log).use ctx (.next fuel)).2.run ctx _).2.Sliced ctx id fuel skip limit items
      log (k + 1)
    rw [show ((mk _ state log).use ctx (.next fuel)).2 = _ from huse]
    cases hslices with
    | item hskip hitems hq hrest hrequests hreports =>
      have hlimit : limit ≠ some 0 := by
        rintro rfl
        cases (ScriptItem.slice_zero items).symm.trans hitems
      have hless := Nat.le_trans (Nat.mul_le_mul_left n (Nat.succ_le_succ hskip)) hfuel
      exact (ih hq hrest rfl hless _ (Pipe.next_slice hrest hctx hid hq rfl hpos hless _)).cons
        hlimit hitems hrequests hreports
    | ended hitems hrequests hreports =>
      rw [run_spent rfl hpos]
      exact .ended hpos hitems hrequests hreports _

end Held

section Exactness

open ScriptItem (rows takeRows closings)

variable {a : Allowance} {ctx : Context} {id : String} {n offset fuel : Nat} {p : Pipe}
  {state : RunState} {items : List ScriptItem}

theorem Pipe.Responds.pos (h : p.Responds ctx n state items) : 0 < n := by
  refine Nat.pos_of_ne_zero fun hzero => ?_
  subst hzero
  cases items with
  | nil => cases h
  | cons item rest => cases item <;> cases h.1

/-- **Slices are exact.** Let the input respond with some rows and failures, in any order, and then
end; it is tracked, under a name that nothing in it uses, so that the log shows its calls. Take a
slice of it, with any offset and limit, after any number of questions. The next answer is the next
of the items that the slice passes on, and behind these that there is no more. These are the rows
behind the offset, up to the limit, with all failures up to the last of them. The input has not been
asked at all if the limit is zero, and not beyond the last row of the slice. It has been closed with
that row, if the limit is not zero, and with the answer that there is no more, and only then. That
answer, and no other, exhausts the slice. -/
theorem Pipe.slice_exact (hctx : a.Realized ctx) (hid : ¬ a.tracker id) (hp : p.Within a)
    (hitems : p.Responds ctx n state items) (hfuel : n * (offset + 1) ≤ fuel) (limit : Option Nat)
    (k : Nat) :
    let sliced := ScriptItem.slice offset limit items
    let held := ((Held.mk (.slice .created offset limit (.tracked id false p)) state #[]).run ctx
      (List.replicate k (.next fuel))).2
    rows sliced = limit.elim ((rows items).drop offset) ((rows items).drop offset).take ∧
      (held.use ctx (.next fuel)).1 =
        some (sliced[k]?.elim (.value none) ScriptItem.outcome) ∧
      (∀ l, limit = some l → (l = 0 → requests id held.log.toList = 0) ∧
        (offset + l ≤ (rows items).length →
          requests id held.log.toList ≤ (takeRows (offset + l) items).length)) ∧
      reports id held.log.toList = closings limit sliced k ∧
      (held.pipe.phase = .exhausted ↔ sliced.length < k) := by
  intro sliced held
  have hpos : 0 < fuel :=
    Nat.lt_of_lt_of_le (Nat.mul_pos hitems.pos (Nat.succ_pos offset)) hfuel
  have hsliced : held.Sliced ctx id fuel offset limit items #[] k :=
    Held.run_sliced hctx hid hpos k hp (fun _ => hitems) rfl hfuel #[]
  have hrows : rows sliced = _ := ScriptItem.rows_slice offset limit items
  refine ⟨hrows, hsliced.reply, ?_, ?_, hsliced.exhausted⟩
  · rintro l rfl
    rw [Option.elim_some] at hrows
    have hlength : (rows sliced).length = min l ((rows items).length - offset) := by
      rw [hrows, List.length_take, List.length_drop]
    have hfull := hsliced.requested
    have hnone : requests id (#[] : Array Event).toList = 0 := rfl
    rw [hnone, Nat.zero_add] at hfull
    cases l with
    | zero =>
      have hzero : requests id held.log.toList ≤ 0 := hfull (by rw [hlength, Nat.zero_min])
      exact ⟨fun _ => Nat.le_zero.1 hzero, fun _ => Nat.le_trans hzero (Nat.zero_le _)⟩
    | succ l =>
      refine ⟨nofun, fun hmany => hfull (congrArg some ?_)⟩
      rw [hlength]
      omega
  · have hreported := hsliced.reported
    have hnone : reports id (#[] : Array Event).toList = 0 := rfl
    rwa [hnone, Nat.zero_add] at hreported

end Exactness

namespace Instance

/-- Three rows, with a failure behind each of the first two. -/
def faltering : List ScriptItem :=
  [.row (.single x a), .fail .cancelled, .row (.single x b), .fail (.tooLarge 2 1),
    .row (.single y b)]

/-- The slice of the second row, after some questions. -/
def slicing (k : Nat) : Held :=
  ((Held.mk (.slice .created 1 (some 1) (.tracked "input" false (.script .created faltering)))
    .initial #[]).run .standard (List.replicate k (.next 2))).2

end Instance

open Instance in
theorem Pipe.slice_exact_faltering :
    ((slicing 0).use .standard (.next 2)).1 = some (.failed .cancelled) ∧
      ((slicing 1).use .standard (.next 2)).1 = some (.value (some (.single x b))) ∧
      ((slicing 2).use .standard (.next 2)).1 = some (.value none) ∧
      reports "input" (slicing 1).log.toList = 0 ∧ reports "input" (slicing 2).log.toList = 1 ∧
      reports "input" (slicing 3).log.toList = 2 ∧ (slicing 3).pipe.phase = .exhausted ∧
      requests "input" (slicing 3).log.toList ≤ 3 := by
  have hp : (Pipe.script .created faltering).Within (.without "input") := fun _ _ => trivial
  have hitems : (Pipe.script .created faltering).Responds .standard 1 .initial faltering :=
    ⟨rfl, rfl, rfl, rfl, rfl, rfl⟩
  have hexact (k : Nat) := slice_exact (Allowance.without_realized "input")
    (Allowance.without_tracker "input") hp hitems (Nat.le_refl (1 * (1 + 1))) (some 1) k
  obtain ⟨-, hfirst, -⟩ := hexact 0
  obtain ⟨-, hsecond, -, hopen, -⟩ := hexact 1
  obtain ⟨-, hthird, -, hclosed, -⟩ := hexact 2
  obtain ⟨-, -, hrequests, hended, hphase⟩ := hexact 3
  exact ⟨hfirst, hsecond, hthird, hopen, hclosed, hended, hphase.2 (by decide),
    (hrequests 1 rfl).2 (by decide)⟩

end TripleQuery
