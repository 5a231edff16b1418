import TripleQuery.Exec.SharedSeed
import TripleQuery.Proofs.Answers.Tracking
import TripleQuery.Proofs.Pipe.Share

/-!
# Replay

However the readers of a shared input take turns, each of them replays the whole input
(`SharedSeed.replays_exactly`).

1. Asking a reader that has all rows of the scope behind it is asking the input, and the scope keeps
   what comes (`Pipe.next_share_ahead`). Any other question is answered from what the scope has
   (`Pipe.next_share_behind`).
2. So the scope has read as many pieces of its input, rows and the end, as the input was asked for,
   and an open reader has had as many as it has asked for. This is the invariant `Keeps` of a
   history of calls, which each call preserves.
3. A reader that is closed for the first time leaves one open reader less. The last one closes the
   input (`SharedSeed.close_open`).
-/

namespace TripleQuery

/-! ## Inputs -/

/-- Asked for one row after the other, the pipeline gives out the rows, and then it ends. -/
def Pipe.Supplies (ctx : Context) (n : Nat) : Pipe → RunState → List Binding → Prop
  | p, state, [] => (p.next ctx n state #[]).outcome = .value none
  | p, state, b :: rest =>
    (p.next ctx n state #[]).outcome = .value (some b) ∧
      (p.next ctx n state #[]).subject.Supplies ctx n (p.next ctx n state #[]).state rest

section Input

variable {ctx : Context} {n : Nat} {p : Pipe} {state : RunState} {xs : List Binding}

namespace Pipe

theorem Supplies.head (h : p.Supplies ctx n state xs) :
    (p.next ctx n state #[]).outcome = .value xs.head? := by
  cases xs with
  | nil => exact h
  | cons b rest => exact h.1

theorem Supplies.tail (h : p.Supplies ctx n state xs) (hxs : xs ≠ []) :
    (p.next ctx n state #[]).subject.Supplies ctx n (p.next ctx n state #[]).state xs.tail := by
  cases xs with
  | nil => exact absurd rfl hxs
  | cons b rest => exact h.2

end Pipe

end Input

/-! ## Readers -/

/-- The rows of a scope after an answer of its input. -/
def SharedRows.reads (shared : SharedRows) (row : Option Binding) : SharedRows :=
  shared.absorb (row.elim .done .yield)

section Readers

variable {ctx : Context} {shared : SharedRows} {input : Pipe}
  {phase : Phase} {position n fuel : Nat} {state : RunState} {log : Array Event}

theorem SharedRows.reads_clean (hlimit : shared.limit = 0) (hclean : shared.fault = none)
    (row : Option Binding) : (shared.reads row).fault = none := by
  cases row with
  | none => exact hclean
  | some b =>
    show (if exceeds (shared.rows.push b).size shared.limit then _ else none) = none
    rw [hlimit]
    rfl

/-- The answer is the piece behind the rows that the scope had. -/
theorem SharedRows.reads_getElem? (shared : SharedRows) (row : Option Binding) :
    (shared.reads row).rows[shared.rows.size]? = row := by
  cases row with
  | none => exact Array.getElem?_eq_none (Nat.le_refl _)
  | some b => exact Array.getElem?_push_size

namespace Pipe

/-- A reader that has ended or is closed says so. -/
theorem next_share_spent (h : phase.isDone = true) (hclean : shared.fault = none)
    (hfuel : 0 < fuel) :
    (share shared input (.replay phase position)).next ctx fuel state log =
      ⟨.value none, .share shared input (.replay phase position), log, state⟩ := by
  obtain ⟨fuel, rfl⟩ := Nat.exists_eq_add_one_of_ne_zero (Nat.ne_of_gt hfuel)
  have hspent : (replay phase position).step ctx (some shared) state =
      .quiet .done (.replay phase position) state := step_spent h
  rw [next, step_share, hspent, clear_of_clean hclean]
  exact congrArg (Answer.mk _ _ · _) Array.appendList_nil

/-- A reader that is not ahead of its scope is answered at once. -/
theorem next_share_behind (h : phase.isDone = false) (hclean : shared.fault = none)
    {row : Option Binding} (hrow : shared.rows[position]? = row)
    (hended : row = none → shared.inputDone = true) (hfuel : 0 < fuel) :
    (share shared input (.replay phase position)).next ctx fuel state log =
      ⟨.value row, .share shared input (.replayed position row), log, state⟩ := by
  obtain ⟨fuel, rfl⟩ := Nat.exists_eq_add_one_of_ne_zero (Nat.ne_of_gt hfuel)
  rw [next, step_share_behind h hclean hrow hended]
  cases row <;> exact congrArg (Answer.mk _ _ · _) Array.appendList_nil

/-- A reader passes on the answer that its scope has got for it. -/
theorem next_share_answered (hclean : shared.fault = none) (hlimit : shared.limit = 0)
    (row : Option Binding) (hfuel : 0 < fuel) :
    (share (shared.reads row) input (.replay .active shared.rows.size)).next ctx fuel state log =
      ⟨.value row, .share (shared.reads row) input (.replayed shared.rows.size row), log,
        state⟩ := by
  have hended (hnone : row = none) : (shared.reads row).inputDone = true := by
    rw [hnone]
    rfl
  exact next_share_behind rfl (shared.reads_clean hlimit hclean row) (shared.reads_getElem? row)
    hended hfuel

/-- Asking a reader that has all rows of its scope behind it is asking the input. The scope keeps
the answer. -/
theorem next_share_ahead (h : phase.isDone = false) (hclean : shared.fault = none)
    (hlimit : shared.limit = 0) (hdone : shared.inputDone = false) {row : Option Binding}
    (hrow : (input.next ctx n state log).outcome = .value row) (hfuel : n < fuel) :
    (share shared input (.replay phase shared.rows.size)).next ctx fuel state log =
      ⟨.value row, .share (shared.reads row) (input.next ctx n state log).subject
        (.replayed shared.rows.size row), (input.next ctx n state log).log,
        (input.next ctx n state log).state⟩ := by
  have hahead : shared.rows[shared.rows.size]? = none := Array.getElem?_eq_none (Nat.le_refl _)
  induction n generalizing fuel phase input state log with
  | zero => cases hrow
  | succ n ih =>
    obtain ⟨fuel, rfl⟩ := Nat.exists_eq_add_one_of_ne_zero (Nat.ne_of_gt (Nat.zero_lt_of_lt hfuel))
    have hleft : n < fuel := Nat.lt_of_succ_lt_succ hfuel
    rw [next] at hrow ⊢
    rw [next, step_share_ahead h hclean hahead hdone]
    cases hsignal : (input.step ctx none state).signal with
    | skip =>
      simp only [shareRead, hsignal] at hrow ⊢
      exact ih rfl hrow hleft
    | yield b =>
      simp only [shareRead, hsignal] at hrow ⊢
      cases hrow
      exact next_share_answered hclean hlimit (some b) (Nat.zero_lt_of_lt hleft)
    | done =>
      simp only [shareRead, hsignal] at hrow ⊢
      cases hrow
      exact next_share_answered hclean hlimit none (Nat.zero_lt_of_lt hleft)
    | await | fail _ =>
      simp only [hsignal] at hrow
      cases hrow

end Pipe

end Readers

/-! ## Histories -/

namespace SharedSeed

/-- A call of a shared input: another reader, or a call of the reader of the given number. -/
inductive Call where
  | reader
  | next (i : Nat)
  | close (i : Nat)
deriving DecidableEq

/-- The calls of a shared input that is used as it should be: only readers that there are get
called, and all are there before one of them is closed. -/
inductive History : List Call → Prop where
  | nil : History []
  | reader {calls : List Call} (h : History calls) (hopen : ∀ i, Call.close i ∉ calls) :
    History (calls ++ [.reader])
  | next {calls : List Call} (h : History calls) {i : Nat} (hi : i < calls.count .reader) :
    History (calls ++ [.next i])
  | close {calls : List Call} (h : History calls) {i : Nat} (hi : i < calls.count .reader) :
    History (calls ++ [.close i])

/-- There have been readers, and all of them are closed. -/
def AllClosed (calls : List Call) : Prop :=
  0 < calls.count .reader ∧ ∀ i < calls.count .reader, Call.close i ∈ calls

instance (calls : List Call) : Decidable (AllClosed calls) := inferInstanceAs (Decidable (_ ∧ _))

/-- A shared input in the middle of its use. -/
structure Session where
  seed : SharedSeed
  state : RunState
  log : Array Event

namespace Session

/-- An input that is to be shared, without a limit on the rows that are kept. -/
def start (input : Pipe) (state : RunState) : Session := ⟨.ofInput input 0, state, #[]⟩

/-- The session after a call. -/
def call (ctx : Context) (fuel : Nat) (s : Session) : Call → Session
  | .reader => { s with seed := s.seed.addReader }
  | .next i =>
    let a := s.seed.next ctx fuel i s.state s.log
    ⟨a.subject, a.state, a.log⟩
  | .close i => ⟨(s.seed.close i).1, s.state, s.log ++ (s.seed.close i).2⟩

/-- The session after some calls. -/
def run (ctx : Context) (fuel : Nat) (s : Session) (calls : List Call) : Session :=
  calls.foldl (fun s c => s.call ctx fuel c) s

theorem run_append (ctx : Context) (fuel : Nat) (s : Session) (calls : List Call) (c : Call) :
    s.run ctx fuel (calls ++ [c]) = (s.run ctx fuel calls).call ctx fuel c := by
  unfold run
  rw [List.foldl_append]
  rfl

/-- What a reader answers to the next question. -/
def answer (ctx : Context) (fuel : Nat) (s : Session) (i : Nat) : Outcome (Option Binding) :=
  (s.seed.next ctx fuel i s.state s.log).outcome

end Session

/-! ### Readers -/

/-- A reader that is not closed has had as many pieces of the input as it has asked for. -/
inductive Stands (length known asked : Nat) : Pipe → Prop where
  | reading {phase : Phase} (h : phase.isDone = false) (hknown : asked ≤ known)
    (hlength : asked ≤ length) : Stands length known asked (.replay phase asked)
  | ended (h : length < asked) (position : Nat) :
    Stands length known asked (.replay .exhausted position)

/-- The readers of a shared input after some calls, of an input of some length that has given the
scope some pieces. -/
structure Readers (length known : Nat) (calls : List Call) (readers : List Pipe) : Prop where
  count : readers.length = calls.count .reader
  standing {i : Nat} {r : Pipe} (hr : readers[i]? = some r) (h : Call.close i ∉ calls) :
    Stands length known (calls.count (.next i)) r
  closed {i : Nat} {r : Pipe} (hr : readers[i]? = some r) (h : Call.close i ∈ calls) :
    ∃ position, r = .replay .closed position

/-- Whether a pipeline is yet to be closed. -/
def isOpen (p : Pipe) : Bool := !p.phase.isClosed

section Readers

variable {length known known' asked i : Nat} {calls : List Call} {readers : List Pipe} {r r' : Pipe}

theorem Stands.mono (h : Stands length known asked r) (hknown : known ≤ known') :
    Stands length known' asked r := by
  cases h with
  | reading h hle hlength => exact .reading h (Nat.le_trans hle hknown) hlength
  | ended h position => exact .ended h position

theorem Stands.isOpen (h : Stands length known asked r) : isOpen r = true := by
  cases h with
  | @reading phase h _ _ =>
    cases phase with
    | closed => cases h
    | _ => rfl
  | ended => rfl

/-- A reader that has been answered has had one piece more. -/
theorem Stands.replayed {xs : List Binding} (hknown : asked < known) :
    Stands xs.length known (asked + 1) (.replayed asked xs[asked]?) := by
  cases hrow : xs[asked]? with
  | some row =>
    have hlt := (List.getElem?_eq_some_iff.1 hrow).1
    exact .reading rfl hknown hlt
  | none => exact .ended (Nat.lt_succ_of_le (List.getElem?_eq_none_iff.1 hrow)) asked

theorem Readers.isOpen_iff (h : Readers length known calls readers) (hr : readers[i]? = some r) :
    isOpen r = true ↔ Call.close i ∉ calls := by
  refine ⟨fun hopen hclosed => ?_, fun hnot => (h.standing hr hnot).isOpen⟩
  obtain ⟨position, rfl⟩ := h.closed hr hclosed
  cases hopen

theorem Readers.allClosed_iff (h : Readers length known calls readers) :
    AllClosed calls ↔ 0 < readers.length ∧ readers.countP isOpen = 0 := by
  unfold AllClosed
  rw [← h.count, List.countP_eq_zero]
  refine and_congr_right fun _ => ⟨fun hall r hr => ?_, fun hall i hi => ?_⟩
  · obtain ⟨i, hi⟩ := List.mem_iff_getElem?.1 hr
    rw [h.isOpen_iff hi]
    exact not_not_intro (hall i (List.getElem?_eq_some_iff.1 hi).1)
  · have hnot := hall readers[i] (List.getElem_mem hi)
    rw [h.isOpen_iff (List.getElem?_eq_getElem hi)] at hnot
    exact not_not.1 hnot

theorem countP_set_closed (hr : readers[i]? = some r) (hopen : isOpen r = true) (position : Nat) :
    (readers.set i (.replay .closed position)).countP isOpen + 1 = readers.countP isOpen := by
  obtain ⟨hi, rfl⟩ := List.getElem?_eq_some_iff.1 hr
  have hpos : 0 < readers.countP isOpen := List.countP_pos_iff.2 ⟨_, List.getElem_mem hi, hopen⟩
  have hclosed : isOpen (.replay .closed position) = false := rfl
  rw [List.countP_set hi, hopen, hclosed, if_pos rfl, if_neg Bool.false_ne_true]
  omega

theorem countP_set_alike (hr : readers[i]? = some r) (halike : isOpen r' = isOpen r) :
    (readers.set i r').countP isOpen = readers.countP isOpen := by
  obtain ⟨hi, rfl⟩ := List.getElem?_eq_some_iff.1 hr
  rw [List.countP_set hi, halike]
  cases hopen : isOpen readers[i] with
  | true =>
    have hpos : 0 < readers.countP isOpen := List.countP_pos_iff.2 ⟨_, List.getElem_mem hi, hopen⟩
    rw [if_pos rfl]
    omega
  | false =>
    rw [if_neg Bool.false_ne_true]
    omega

/-- Another reader, which nobody has called. -/
theorem Readers.reader (h : Readers length known calls readers)
    (hopen : ∀ i, Call.close i ∉ calls) (hnew : Call.next readers.length ∉ calls) :
    Readers length known (calls ++ [.reader]) (readers ++ [.replay .created 0]) where
  count := by simp [h.count]
  standing {i r} hr _ := by
    have hcount : (calls ++ [Call.reader]).count (.next i) = calls.count (.next i) := by simp
    rw [hcount]
    rw [List.getElem?_append] at hr
    split at hr
    · exact h.standing hr (hopen i)
    · rw [List.getElem?_singleton] at hr
      split at hr
      · obtain rfl : i = readers.length := by omega
        rw [List.count_eq_zero.2 hnew, ← Option.some.inj hr]
        exact .reading rfl (Nat.zero_le _) (Nat.zero_le _)
      · cases hr
  closed hr hmem := by
    rw [List.mem_append, List.mem_singleton] at hmem
    rcases hmem with hmem | hmem
    · exact absurd hmem (hopen _)
    · cases hmem

/-- After a question to a reader, which may have made the scope read on. -/
theorem Readers.next (h : Readers length known calls readers) (hknown : known ≤ known')
    (hstands : Call.close i ∉ calls → Stands length known' (calls.count (.next i) + 1) r')
    (hclosed : Call.close i ∈ calls → ∃ position, r' = .replay .closed position) :
    Readers length known' (calls ++ [.next i]) (readers.set i r') where
  count := by simp [h.count]
  standing {j r} hr hnot := by
    have hnot' : Call.close j ∉ calls := fun hmem => hnot (List.mem_append_left _ hmem)
    rw [List.getElem?_set] at hr
    split at hr
    · next heq =>
      subst heq
      split at hr
      · cases hr
        simpa using hstands hnot'
      · cases hr
    · next hne =>
      have hcount : (calls ++ [Call.next i]).count (.next j) = calls.count (.next j) := by
        simp [hne]
      rw [hcount]
      exact (h.standing hr hnot').mono hknown
  closed {j r} hr hmem := by
    have hmem' : Call.close j ∈ calls := by simpa using hmem
    rw [List.getElem?_set] at hr
    split at hr
    · next heq =>
      subst heq
      split at hr
      · cases hr
        exact hclosed hmem'
      · cases hr
    · exact h.closed hr hmem'

/-- After a reader is closed. -/
theorem Readers.close (h : Readers length known calls readers) (position : Nat) :
    Readers length known (calls ++ [.close i]) (readers.set i (.replay .closed position)) where
  count := by simp [h.count]
  standing {j r} hr hnot := by
    have hne : i ≠ j := fun heq => hnot (by simp [heq])
    have hnot' : Call.close j ∉ calls := fun hmem => hnot (List.mem_append_left _ hmem)
    rw [List.getElem?_set_ne hne] at hr
    simpa using h.standing hr hnot'
  closed {j r} hr hmem := by
    rw [List.getElem?_set] at hr
    split at hr
    · split at hr
      · cases hr
        exact ⟨position, rfl⟩
      · cases hr
    · next hne =>
      refine h.closed hr ?_
      simpa [Ne.symm hne] using hmem

end Readers

/-! ### Scopes -/

section Scopes

variable {xs : List Binding} {known : Nat} {shared : SharedRows}

theorem serves_withReaders {all : Flow} (h : Serves all known shared) (n : Nat) :
    Serves all known { shared with openReaders := n } :=
  ⟨h.rows, h.done, h.clean, h.ended⟩

/-- A scope without a limit that reads on has got one piece more. -/
theorem serves_reads (h : Serves (.ofRows xs) known shared) (hlimit : shared.limit = 0) :
    Serves (.ofRows xs) (known + 1) (shared.reads xs[known]?) := by
  obtain ⟨hrows, hdone, hclean, -⟩ := h
  rw [Flow.rows_ofRows] at hrows hdone
  refine ⟨?_, ?_, shared.reads_clean hlimit hclean _, fun _ => Flow.fault?_ofRows _⟩
  · rw [Flow.rows_ofRows, List.take_add_one, ← hrows]
    cases xs[known]? with
    | some b => exact Array.toList_push
    | none => exact (List.append_nil _).symm
  · rw [Flow.rows_ofRows]
    cases hrow : xs[known]? with
    | some b =>
      have hlt := (List.getElem?_eq_some_iff.1 hrow).1
      exact hdone.trans (by simp; omega)
    | none =>
      have hle := List.getElem?_eq_none_iff.1 hrow
      exact (decide_eq_true (Nat.lt_succ_of_le hle)).symm

theorem serves_size (h : Serves (.ofRows xs) known shared) (hknown : known ≤ xs.length) :
    shared.rows.size = known := by
  rw [← Array.length_toList, h.rows, Flow.rows_ofRows, List.length_take_of_le hknown]

end Scopes

/-! ### Calls -/

section Calls

variable (a : Allowance) (ctx : Context) (id : String) (n : Nat) (xs : List Binding)

/-- The scope has read some pieces of the rows, and the input is going to give out the others. -/
structure Serving (known : Nat) (s : Session) : Prop where
  serves : Serves (.ofRows xs) known s.seed.shared
  limit : s.seed.shared.limit = 0
  input : ∃ p, s.seed.input = .tracked id false p ∧ p.Within a ∧
    (known ≤ xs.length → p.Supplies ctx n s.state (xs.drop known))

/-- What a history of calls comes to: the input has been asked for the pieces that the scope has
read, and it is closed once all readers are. -/
structure Keeps (calls : List Call) (known : Nat) (s : Session) : Prop where
  bound : known ≤ xs.length + 1
  requested : requests id s.log.toList = known
  reported : reports id s.log.toList = if AllClosed calls then 1 else 0
  clean : s.seed.shared.fault = none
  readers : Readers xs.length known calls s.seed.readers
  counted : s.seed.shared.openReaders = s.seed.readers.countP isOpen
  serving (h : ¬ AllClosed calls) : Serving a ctx id n xs known s

variable {a ctx id n xs} {calls : List Call} {known i fuel : Nat} {s : Session}

theorem not_allClosed (h : ∀ i, Call.close i ∉ calls) : ¬ AllClosed calls :=
  fun hall => h 0 (hall.2 0 hall.1)

theorem Keeps.start {p : Pipe} {state : RunState} (hp : p.Within a)
    (hxs : p.Supplies ctx n state xs) :
    Keeps a ctx id n xs [] 0 (.start (.tracked id false p) state) where
  bound := Nat.zero_le _
  requested := rfl
  reported := rfl
  clean := rfl
  readers := ⟨rfl, fun hr => (nomatch hr), fun hr => (nomatch hr)⟩
  counted := rfl
  serving _ := by
    have hserves : Serves (.ofRows xs) 0 (SharedSeed.ofInput (.tracked id false p) 0).shared :=
      ⟨rfl, rfl, rfl, fun h => absurd h (Nat.not_lt_zero _)⟩
    exact ⟨hserves, rfl, p, rfl, hp, fun _ => hxs⟩

theorem Keeps.reader (h : Keeps a ctx id n xs calls known s) (hopen : ∀ i, Call.close i ∉ calls)
    (hnew : Call.next s.seed.readers.length ∉ calls) :
    Keeps a ctx id n xs (calls ++ [.reader]) known (s.call ctx fuel .reader) := by
  have hopen' : ∀ i, Call.close i ∉ calls ++ [.reader] := by simpa using hopen
  obtain ⟨hserves, hlimit, hinput⟩ := h.serving (not_allClosed hopen)
  refine ⟨h.bound, h.requested, ?_, h.clean, h.readers.reader hopen hnew, ?_, fun _ => ?_⟩
  · rw [if_neg (not_allClosed hopen')]
    exact h.reported.trans (if_neg (not_allClosed hopen))
  · show s.seed.shared.openReaders + 1 = (s.seed.readers ++ [Pipe.replay .created 0]).countP isOpen
    rw [List.countP_append, h.counted]
    rfl
  · exact ⟨serves_withReaders hserves _, hlimit, hinput⟩

theorem Keeps.not_allClosed (h : Keeps a ctx id n xs calls known s) {r : Pipe}
    (hr : s.seed.readers[i]? = some r) (hmem : Call.close i ∉ calls) : ¬ AllClosed calls := by
  intro hall
  have hi := (List.getElem?_eq_some_iff.1 hr).1
  exact hmem (hall.2 i (h.readers.count ▸ hi))

theorem set_of_getElem? {readers : List Pipe} {r : Pipe} (hr : readers[i]? = some r) :
    readers.set i r = readers := by
  obtain ⟨hi, rfl⟩ := List.getElem?_eq_some_iff.1 hr
  exact List.set_getElem_self hi

/-- Closing a reader that is closed changes nothing. -/
theorem close_closed {seed : SharedSeed} {position : Nat}
    (hr : seed.readers[i]? = some (.replay .closed position)) : seed.close i = (seed, []) := by
  unfold SharedSeed.close
  rw [hr]
  exact congrArg (SharedSeed.mk _ _ · , []) (set_of_getElem? hr)

/-- Closing an open reader closes the input if it is the last one. -/
theorem close_open {seed : SharedSeed} {phase : Phase} {position : Nat}
    (hr : seed.readers[i]? = some (.replay phase position)) (h : phase.isClosed = false) :
    seed.close i =
      if seed.shared.openReaders ≤ 1 then
        (⟨{ seed.shared with openReaders := 0, rows := #[] }, seed.input.close.1,
          seed.readers.set i (.replay .closed position)⟩, seed.input.close.2)
      else
        (⟨{ seed.shared with openReaders := seed.shared.openReaders - 1 }, seed.input,
          seed.readers.set i (.replay .closed position)⟩, []) := by
  have hsettle : seed.shared.settle seed.input (fun _ => seed.input.close) [.released] =
      if seed.shared.openReaders ≤ 1 then
        ({ seed.shared with openReaders := 0, rows := #[] }, seed.input.close.1,
          seed.input.close.2 ++ [])
      else ({ seed.shared with openReaders := seed.shared.openReaders - 1 }, seed.input, []) := by
    have hrelease : Event.released.isRelease = true := rfl
    rw [SharedRows.settle, if_pos hrelease]
    rfl
  rw [List.append_nil] at hsettle
  unfold SharedSeed.close
  rw [hr]
  simp only [scopeOf, Pipe.close, h, Bool.false_eq_true, if_false, hsettle]
  split <;> rfl

theorem allClosed_append_next : AllClosed (calls ++ [.next i]) ↔ AllClosed calls := by
  simp [AllClosed]

theorem allClosed_append_close (h : Call.close i ∈ calls) :
    AllClosed (calls ++ [.close i]) ↔ AllClosed calls := by
  unfold AllClosed
  have hcount : (calls ++ [Call.close i]).count .reader = calls.count .reader := by simp
  rw [hcount]
  refine and_congr_right fun _ => forall₂_congr fun j _ => ?_
  rw [List.mem_append, List.mem_singleton, or_iff_left_of_imp]
  intro heq
  cases heq
  exact h

theorem Keeps.close_closed (h : Keeps a ctx id n xs calls known s) {position : Nat}
    (hr : s.seed.readers[i]? = some (.replay .closed position)) (hmem : Call.close i ∈ calls) :
    Keeps a ctx id n xs (calls ++ [.close i]) known (s.call ctx fuel (.close i)) := by
  have hsame : s.call ctx fuel (.close i) = s := by
    show Session.mk (s.seed.close i).1 s.state (s.log ++ (s.seed.close i).2) = s
    rw [SharedSeed.close_closed hr]
    exact congrArg (Session.mk _ _) Array.appendList_nil
  rw [hsame]
  refine ⟨h.bound, h.requested, ?_, h.clean, ?_, h.counted, fun hnot => h.serving ?_⟩
  · rw [h.reported, if_congr (allClosed_append_close hmem) rfl rfl]
  · have hreaders := h.readers.close (i := i) position
    rwa [set_of_getElem? hr] at hreaders
  · rwa [allClosed_append_close hmem] at hnot

theorem Keeps.close_open (h : Keeps a ctx id n xs calls known s) (hid : ¬ a.tracker id)
    {phase : Phase} {position : Nat} (hr : s.seed.readers[i]? = some (.replay phase position))
    (hphase : phase.isClosed = false) (hmem : Call.close i ∉ calls) :
    Keeps a ctx id n xs (calls ++ [.close i]) known (s.call ctx fuel (.close i)) := by
  have hi := (List.getElem?_eq_some_iff.1 hr).1
  have hopen := h.not_allClosed hr hmem
  obtain ⟨hserves, hlimit, p, hinput, hp, hsupplies⟩ := h.serving hopen
  have hreaders := h.readers.close (i := i) position
  have hcount : (s.seed.readers.set i (.replay .closed position)).countP isOpen + 1 =
      s.seed.shared.openReaders := by
    have hstanding : isOpen (.replay phase position) = true := (h.readers.standing hr hmem).isOpen
    rw [countP_set_closed hr hstanding, h.counted]
  have hreports : reports id s.log.toList = 0 := h.reported.trans (if_neg hopen)
  show Keeps _ _ _ _ _ _ _ ⟨(s.seed.close i).1, s.state, s.log ++ (s.seed.close i).2⟩
  rw [SharedSeed.close_open hr hphase]
  by_cases hlast : s.seed.shared.openReaders ≤ 1
  · -- the last reader takes the input with it
    rw [if_pos hlast]
    obtain ⟨-, hevents⟩ := hp.close
    obtain ⟨hrequests', hreports'⟩ := a.untraced hid hevents
    have hall : AllClosed (calls ++ [.close i]) := by
      rw [hreaders.allClosed_iff, List.length_set]
      exact ⟨Nat.zero_lt_of_lt hi, by omega⟩
    have hclose : s.seed.input.close = (.tracked id false p.close.1, .closed id :: p.close.2) := by
      rw [hinput]
      rfl
    rw [hclose]
    refine ⟨h.bound, ?_, ?_, h.clean, hreaders, ?_, fun hnot => absurd hall hnot⟩
    · rw [Array.toList_appendList, requests_append, h.requested]
      exact congrArg (known + ·) hrequests'
    · have hseen : Event.reports id (.closed id) = true := beq_self_eq_true id
      rw [Array.toList_appendList, reports_append, hreports, if_pos hall, Nat.zero_add]
      exact (List.countP_cons_of_pos hseen).trans (congrArg (· + 1) hreports')
    · show 0 = (s.seed.readers.set i (.replay .closed position)).countP isOpen
      omega
  · rw [if_neg hlast]
    have hnot : ¬ AllClosed (calls ++ [.close i]) := by
      rw [hreaders.allClosed_iff]
      omega
    have hlog : s.log ++ ([] : List Event) = s.log := Array.appendList_nil
    rw [hlog]
    refine ⟨h.bound, h.requested, hreports.trans (if_neg hnot).symm, h.clean, hreaders, ?_,
      fun _ => ?_⟩
    · show s.seed.shared.openReaders - 1 = _
      rw [← hcount]
      rfl
    · exact ⟨serves_withReaders hserves _, hlimit, p, hinput, hp, hsupplies⟩

theorem Keeps.close (h : Keeps a ctx id n xs calls known s) (hid : ¬ a.tracker id)
    (hi : i < calls.count .reader) :
    Keeps a ctx id n xs (calls ++ [.close i]) known (s.call ctx fuel (.close i)) := by
  rw [← h.readers.count] at hi
  have hr := List.getElem?_eq_getElem hi
  generalize s.seed.readers[i] = r at hr
  by_cases hmem : Call.close i ∈ calls
  · obtain ⟨position, rfl⟩ := h.readers.closed hr hmem
    exact h.close_closed hr hmem
  · have hopen := (h.readers.standing hr hmem).isOpen
    cases h.readers.standing hr hmem with
    | @reading phase _ _ _ =>
      have hphase : phase.isClosed = false := (Bool.not_eq_true' phase.isClosed).mp hopen
      exact h.close_open hid hr hphase hmem
    | ended => exact h.close_open hid hr rfl hmem

/-- The reader answers, and the scope with it. -/
theorem next_eq {seed : SharedSeed} {r r' : Pipe} (hr : seed.readers[i]? = some r)
    {shared : SharedRows} {input : Pipe} {outcome : Outcome (Option Binding)}
    {state state' : RunState} {log log' : Array Event}
    (h : (Pipe.share seed.shared seed.input r).next ctx fuel state log =
      ⟨outcome, .share shared input r', log', state'⟩) :
    seed.next ctx fuel i state log =
      ⟨outcome, ⟨shared, input, seed.readers.set i r'⟩, log', state'⟩ := by
  unfold SharedSeed.next
  rw [hr]
  simp only [scopeOf, h]
  rfl

/-- A question that the scope answers from what it has. -/
theorem Keeps.next_quiet (h : Keeps a ctx id n xs calls known s) {r r' : Pipe}
    {row : Option Binding} (hr : s.seed.readers[i]? = some r)
    (hnext : (Pipe.share s.seed.shared s.seed.input r).next ctx fuel s.state s.log =
      ⟨.value row, .share s.seed.shared s.seed.input r', s.log, s.state⟩)
    (halike : isOpen r' = isOpen r)
    (hstands : Call.close i ∉ calls → Stands xs.length known (calls.count (.next i) + 1) r')
    (hclosed : Call.close i ∈ calls → ∃ position, r' = .replay .closed position) :
    s.answer ctx fuel i = .value row ∧
      Keeps a ctx id n xs (calls ++ [.next i]) known (s.call ctx fuel (.next i)) := by
  have hseed := next_eq hr hnext
  refine ⟨congrArg Answer.outcome hseed, ?_⟩
  have hcall : s.call ctx fuel (.next i) =
      ⟨⟨s.seed.shared, s.seed.input, s.seed.readers.set i r'⟩, s.state, s.log⟩ :=
    congrArg (fun a => Session.mk a.subject a.state a.log) hseed
  rw [hcall]
  refine ⟨h.bound, h.requested, ?_, h.clean, h.readers.next (Nat.le_refl _) hstands hclosed, ?_,
    fun hnot => ?_⟩
  · rw [h.reported, if_congr allClosed_append_next rfl rfl]
  · rw [countP_set_alike hr halike]
    exact h.counted
  · obtain ⟨hserves, hlimit, hinput⟩ := h.serving (mt allClosed_append_next.2 hnot)
    exact ⟨hserves, hlimit, hinput⟩

/-- A question for a piece of the input that the scope has. -/
theorem Keeps.next_behind (h : Keeps a ctx id n xs calls known s) (hfuel : 0 < fuel) {phase : Phase}
    {asked : Nat} (hr : s.seed.readers[i]? = some (.replay phase asked))
    (hphase : phase.isDone = false) (hmem : Call.close i ∉ calls)
    (hcount : calls.count (.next i) = asked) (hbehind : asked < known) :
    s.answer ctx fuel i = .value xs[asked]? ∧
      Keeps a ctx id n xs (calls ++ [.next i]) known (s.call ctx fuel (.next i)) := by
  have hserves := (h.serving (h.not_allClosed hr hmem)).serves
  have hrow : s.seed.shared.rows[asked]? = xs[asked]? := by
    rw [hserves.getElem?, if_pos hbehind, Flow.rows_ofRows]
  have hended (hnone : xs[asked]? = none) : s.seed.shared.inputDone = true := by
    rw [List.getElem?_eq_none_iff] at hnone
    rw [hserves.done, Flow.rows_ofRows, decide_eq_true (Nat.lt_of_le_of_lt hnone hbehind)]
  have hstands : Stands xs.length known (asked + 1) (.replayed asked xs[asked]?) :=
    .replayed hbehind
  have halike : isOpen (.replayed asked xs[asked]?) = isOpen (.replay phase asked) := by
    rw [hstands.isOpen, (h.readers.standing hr hmem).isOpen]
  exact h.next_quiet hr (Pipe.next_share_behind hphase h.clean hrow hended hfuel) halike
    (fun _ => hcount ▸ hstands) (absurd · hmem)

/-- A question for which the scope asks the input. -/
theorem Keeps.next_read (h : Keeps a ctx id n xs calls known s) (hctx : a.Realized ctx)
    (hid : ¬ a.tracker id) (hfuel : n < fuel) {phase : Phase}
    (hr : s.seed.readers[i]? = some (.replay phase known)) (hphase : phase.isDone = false)
    (hmem : Call.close i ∉ calls) (hcount : calls.count (.next i) = known)
    (hknown : known ≤ xs.length) :
    s.answer ctx fuel i = .value xs[known]? ∧
      Keeps a ctx id n xs (calls ++ [.next i]) (known + 1) (s.call ctx fuel (.next i)) := by
  obtain ⟨hserves, hlimit, p, hinput, hp, hsupplies⟩ := h.serving (h.not_allClosed hr hmem)
  have hsize : s.seed.shared.rows.size = known := serves_size hserves hknown
  have hdone : s.seed.shared.inputDone = false := by
    rw [hserves.done, Flow.rows_ofRows, decide_eq_false (Nat.not_lt.2 hknown)]
  have hhead : (p.next ctx n s.state #[]).outcome = .value xs[known]? := by
    rw [(hsupplies hknown).head, List.head?_drop]
  have hanswers : (p.next ctx n s.state #[]).outcome ≠ .stalled := hhead ▸ nofun
  obtain ⟨hp', own, hrequests, hreports, hasked⟩ :=
    Pipe.next_tracked hctx hid hp hanswers false s.log
  rw [hhead] at hasked
  have hnext := Pipe.next_share_ahead hphase h.clean hlimit hdone
    (congrArg Answer.outcome hasked) hfuel
  rw [hasked, hsize, ← hinput] at hnext
  have hseed := next_eq hr hnext
  refine ⟨congrArg Answer.outcome hseed, ?_⟩
  have hcall : s.call ctx fuel (.next i) = ⟨⟨s.seed.shared.reads xs[known]?,
      .tracked id false (p.next ctx n s.state #[]).subject,
      s.seed.readers.set i (.replayed known xs[known]?)⟩, (p.next ctx n s.state #[]).state,
      s.log ++ own⟩ :=
    congrArg (fun a => Session.mk a.subject a.state a.log) hseed
  have hstands : Stands xs.length (known + 1) (known + 1) (.replayed known xs[known]?) :=
    .replayed (Nat.lt_succ_self known)
  have halike : isOpen (.replayed known xs[known]?) = isOpen (.replay phase known) := by
    rw [hstands.isOpen, (h.readers.standing hr hmem).isOpen]
  rw [hcall]
  refine ⟨Nat.succ_le_succ hknown, ?_, ?_, s.seed.shared.reads_clean hlimit h.clean _,
    h.readers.next (Nat.le_succ known) (fun _ => hcount ▸ hstands) (absurd · hmem), ?_,
    fun _ => ?_⟩
  · rw [Array.toList_appendList, requests_append, h.requested, hrequests]
    rfl
  · rw [Array.toList_appendList, reports_append, h.reported, hreports,
      if_congr allClosed_append_next rfl rfl]
    rfl
  · rw [countP_set_alike hr halike, ← h.counted]
    cases xs[known]? <;> rfl
  · refine ⟨serves_reads hserves hlimit, ?_, _, rfl, hp', fun hle => ?_⟩
    · rw [← hlimit]
      cases xs[known]? <;> rfl
    · have hmore : xs.drop known ≠ [] := fun hnil => by
        have := List.drop_eq_nil_iff.1 hnil
        omega
      rw [← List.tail_drop]
      exact (hsupplies hknown).tail hmore

/-- **Answers.** A reader that is not closed gives out the next row, or there is none; one that is
closed gives out nothing. -/
theorem Keeps.next (h : Keeps a ctx id n xs calls known s) (hctx : a.Realized ctx)
    (hid : ¬ a.tracker id) (hfuel : n < fuel) (hi : i < calls.count .reader) :
    s.answer ctx fuel i =
        .value (if Call.close i ∈ calls then none else xs[calls.count (.next i)]?) ∧
      ∃ known, Keeps a ctx id n xs (calls ++ [.next i]) known (s.call ctx fuel (.next i)) := by
  have hpos : 0 < fuel := Nat.zero_lt_of_lt hfuel
  rw [← h.readers.count] at hi
  have hr := List.getElem?_eq_getElem hi
  generalize s.seed.readers[i] = r at hr
  by_cases hmem : Call.close i ∈ calls
  · obtain ⟨position, rfl⟩ := h.readers.closed hr hmem
    rw [if_pos hmem]
    obtain ⟨hanswer, hkeeps⟩ := h.next_quiet hr (Pipe.next_share_spent rfl h.clean hpos) rfl
      (absurd hmem) fun _ => ⟨position, rfl⟩
    exact ⟨hanswer, known, hkeeps⟩
  rw [if_neg hmem]
  generalize hcount : calls.count (.next i) = asked
  have hstanding := h.readers.standing hr hmem
  rw [hcount] at hstanding
  cases hstanding with
  | ended hended position =>
    rw [List.getElem?_eq_none (Nat.le_of_lt hended)]
    obtain ⟨hanswer, hkeeps⟩ := h.next_quiet hr (Pipe.next_share_spent rfl h.clean hpos) rfl
      (fun _ => .ended (hcount ▸ Nat.lt_succ_of_lt hended) position) (absurd · hmem)
    exact ⟨hanswer, known, hkeeps⟩
  | @reading phase hphase hle hlength =>
    rcases Nat.eq_or_lt_of_le hle with rfl | hbehind
    · obtain ⟨hanswer, hkeeps⟩ := h.next_read hctx hid hfuel hr hphase hmem hcount hlength
      exact ⟨hanswer, _, hkeeps⟩
    · obtain ⟨hanswer, hkeeps⟩ := h.next_behind hpos hr hphase hmem hcount hbehind
      exact ⟨hanswer, known, hkeeps⟩

end Calls

/-! ### Runs -/

section Runs

variable {a : Allowance} {ctx : Context} (hctx : a.Realized ctx) {id : String}
  (hid : ¬ a.tracker id) {p : Pipe} (hp : p.Within a) {n : Nat} {state : RunState}
  {xs : List Binding} (hxs : p.Supplies ctx n state xs) {fuel : Nat} (hfuel : n < fuel)

/-- Only readers that there are have been asked. -/
theorem History.next_lt {calls : List Call} (h : History calls) {i : Nat}
    (hi : Call.next i ∈ calls) : i < calls.count .reader := by
  induction h with
  | nil => cases hi
  | reader h hopen ih =>
    have hlt := ih (by simpa using hi)
    rw [List.count_append]
    exact Nat.lt_add_right _ hlt
  | next h hj ih =>
    rcases List.mem_append.1 hi with hi | hi
    · simpa using ih hi
    · cases List.mem_singleton.1 hi
      simpa using hj
  | close h hj ih =>
    have hlt := ih (by simpa using hi)
    simpa using hlt

include hctx hid hp hxs hfuel

/-- The invariant holds after every history. -/
theorem History.keeps {calls : List Call} (h : History calls) :
    ∃ known, Keeps a ctx id n xs calls known
      ((Session.start (.tracked id false p) state).run ctx fuel calls) := by
  induction h with
  | nil => exact ⟨0, .start hp hxs⟩
  | reader h hopen ih =>
    obtain ⟨known, hkeeps⟩ := ih
    rw [Session.run_append]
    refine ⟨known, hkeeps.reader hopen fun hnew => ?_⟩
    have hlt := h.next_lt hnew
    rw [hkeeps.readers.count] at hlt
    exact Nat.lt_irrefl _ hlt
  | next h hi ih =>
    obtain ⟨known, hkeeps⟩ := ih
    rw [Session.run_append]
    exact (hkeeps.next hctx hid hfuel hi).2
  | close h hi ih =>
    obtain ⟨known, hkeeps⟩ := ih
    rw [Session.run_append]
    exact ⟨known, hkeeps.close hid hi⟩

/-- **Replay.** Let the input give out some rows, and then end; it is tracked, under a name that
nothing in it uses, so that the log shows its calls. After any history of calls of its readers, the
next answer of a reader that is not closed is the row behind those that this reader has had, or that
there is none if it has had all, whatever the other readers have done; a closed reader answers that
there is none. The input has been asked at most once more than it has rows. It has been closed, and
only once, if all its readers are closed, and else it has not. -/
theorem replays_exactly {calls : List Call} (h : History calls) :
    let s := (Session.start (.tracked id false p) state).run ctx fuel calls
    (∀ i < calls.count .reader, s.answer ctx fuel i =
        .value (if Call.close i ∈ calls then none else xs[calls.count (.next i)]?)) ∧
      requests id s.log.toList ≤ xs.length + 1 ∧
      reports id s.log.toList = if AllClosed calls then 1 else 0 := by
  obtain ⟨known, hkeeps⟩ := h.keeps hctx hid hp hxs hfuel
  exact ⟨fun i hi => (hkeeps.next hctx hid hfuel hi).1,
    Nat.le_trans (Nat.le_of_eq hkeeps.requested) hkeeps.bound, hkeeps.reported⟩

end Runs

namespace Replay

/-- What does not involve the tracker of the input. -/
def untracked : Allowance where
  extension _ := False
  failure _ := True
  tracker id := id ≠ "input"
  dataset _ := trivial
  cancelled := trivial
  tooLarge _ _ := trivial

def first : Binding := .single ⟨"x"⟩ (.iri "a")

def second : Binding := .single ⟨"x"⟩ (.iri "b")

/-- Two readers, one of which overtakes the other and is closed, twice. -/
def calls : List Call := [.reader, .next 0, .reader, .next 1, .next 0, .close 0, .close 0]

theorem calls_history : History calls :=
  .close (.close (.next (.next (.reader (.next (.reader .nil nofun) (by decide)) (by simp))
    (by decide)) (by decide)) (by decide)) (by decide)

/-- The shared input after some calls. -/
def after (calls : List Call) : Session :=
  (Session.start (.tracked "input" false (.bindings .created [first, second])) .initial).run
    .standard 2 calls

end Replay

open Replay in
theorem replays_exactly_interleaved :
    (after calls).answer .standard 2 1 = .value (some second) ∧
      (after calls).answer .standard 2 0 = .value none ∧
      requests "input" (after calls).log.toList ≤ 3 ∧
      reports "input" (after calls).log.toList = 0 ∧
      reports "input" (after (calls ++ [.close 1])).log.toList = 1 := by
  have hctx : untracked.Realized .standard := fun _ h => h.elim
  have hid : ¬ untracked.tracker "input" := fun h => h rfl
  have hp : (Pipe.bindings .created [first, second]).Within untracked := trivial
  have hxs : (Pipe.bindings .created [first, second]).Supplies .standard 1 .initial
      [first, second] := ⟨rfl, rfl, rfl⟩
  obtain ⟨hanswers, hrequests, hreports⟩ :=
    replays_exactly hctx hid hp hxs (Nat.lt_succ_self 1) calls_history
  obtain ⟨-, -, hclosed⟩ := replays_exactly hctx hid hp hxs (Nat.lt_succ_self 1)
    (calls_history.close (by decide : 1 < calls.count .reader))
  exact ⟨hanswers 1 (by decide), hanswers 0 (by decide), hrequests, hreports, hclosed⟩

end SharedSeed

end TripleQuery
