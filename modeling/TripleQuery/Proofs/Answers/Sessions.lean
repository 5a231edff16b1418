import TripleQuery.Exec.Query
import TripleQuery.Proofs.Pipe.Books

/-!
# Sessions

A session is what the owner of a query does with it: calls, one after the other, in any order. A
call that runs out of fuel leaves the query where it is, so sessions also show every moment in the
middle of a call.

The books of a pipeline are books of the session (`Query.Keeps`): what the query owed at the start
has happened or is owed for it still. Once the query is closed it owes nothing.
-/

namespace TripleQuery

/-! ## Calls -/

/-- A call of a query. Whoever shares the state of the run can cancel it as well. -/
inductive Call where
  | next (fuel : Nat)
  | first (fuel : Nat)
  | collect (fuel : Nat)
  | count (fuel : Nat)
  | close
  | cancel

/-- What a call returns. -/
inductive Response where
  | row (outcome : Outcome (Option Binding))
  | rows (outcome : Outcome (List Binding))
  | number (outcome : Outcome Nat)
  | nothing

/-- Whether a call ends the query: it says that there is no further row, that the query has failed
or that it has gone through all rows, or it closes the query. -/
def Call.ends : Call → Response → Bool
  | next _, .row (.value none) | first _, .row (.value _) | collect _, .rows (.value _)
  | count _, .number (.value _) | close, _ | _, .row (.failed _) | _, .rows (.failed _)
  | _, .number (.failed _) => true
  | _, _ => false

/-- A query in the middle of its use. -/
structure Session where
  query : Query
  state : RunState
  log : Array Event

namespace Session

/-- The session after an answer. -/
def after {α : Type} (a : Answer Query α) : Session := ⟨a.subject, a.state, a.log⟩

/-- What a call returns, and the session after it. -/
def call (ctx : Context) (s : Session) : Call → Response × Session
  | .next fuel =>
    let a := s.query.next ctx fuel s.state s.log
    (.row a.outcome, after a)
  | .first fuel =>
    let a := s.query.first ctx fuel s.state s.log
    (.row a.outcome, after a)
  | .collect fuel =>
    let a := s.query.collect ctx fuel s.state s.log
    (.rows a.outcome, after a)
  | .count fuel =>
    let a := s.query.count ctx fuel s.state s.log
    (.number a.outcome, after a)
  | .close => (.nothing, ⟨s.query.close.1, s.state, s.log ++ s.query.close.2⟩)
  | .cancel => (.nothing, { s with state := s.state.cancel })

/-- What some calls return, and the session after them. -/
def run (ctx : Context) (s : Session) : List Call → List Response × Session
  | [] => ([], s)
  | c :: calls =>
    let (response, s) := s.call ctx c
    let (responses, s) := s.run ctx calls
    (response :: responses, s)

end Session

/-! ## Logs -/

section Logs

variable (ctx : Context) (log : Array Event)

/-- The answer with earlier events in front of its log. -/
def Answer.onto {σ α : Type} (a : Answer σ α) : Answer σ α := { a with log := log ++ a.log }

theorem append_events (more : Array Event) (events : List Event) :
    log ++ more ++ events = log ++ (more ++ events) := by
  apply Array.ext'
  simp only [Array.toList_append, Array.toList_appendList, List.append_assoc]

theorem Pipe.next_onto (fuel : Nat) (p : Pipe) (state : RunState) (more : Array Event) :
    p.next ctx fuel state (log ++ more) = (p.next ctx fuel state more).onto log := by
  induction fuel generalizing p state more with
  | zero => rfl
  | succ fuel ih =>
    rw [next, next]
    cases hs : (p.step ctx none state).signal with
    | skip =>
      simp only [append_events]
      exact ih _ _ _
    | yield _ | await | fail _ | done =>
      simp only [append_events]
      rfl

namespace Query

theorem answerClosing_onto (q : Query) {α : Type} (outcome : Outcome α) (more : Array Event)
    (state : RunState) :
    q.answerClosing outcome (log ++ more) state =
      (q.answerClosing outcome more state).onto log := by
  unfold answerClosing Answer.onto
  simp only [append_events]

theorem next_onto (fuel : Nat) (q : Query) (state : RunState) (more : Array Event) :
    q.next ctx fuel state (log ++ more) = (q.next ctx fuel state more).onto log := by
  unfold next
  rw [Pipe.next_onto]
  split
  · rfl
  · split
    · exact answerClosing_onto log q _ more state
    · dsimp only [Answer.onto]
      cases (q.root.next ctx fuel state more).outcome with
      | value row =>
        cases row with
        | some row => rfl
        | none => exact answerClosing_onto log _ _ _ _
      | failed e => exact answerClosing_onto log _ _ _ _
      | stalled => rfl

theorem first_onto (fuel : Nat) (q : Query) (state : RunState) (more : Array Event) :
    q.first ctx fuel state (log ++ more) = (q.first ctx fuel state more).onto log := by
  unfold first
  rw [next_onto]
  dsimp only [Answer.onto]
  cases ho : (q.next ctx fuel state more).outcome with
  | value row => exact answerClosing_onto log _ _ _ _
  | failed _ | stalled => simp only [ho]

theorem collect_go_onto (fuel rounds : Nat) (q : Query) (state : RunState) (more : Array Event)
    (rows : Array Binding) : collect.go ctx fuel rounds q state (log ++ more) rows =
      (collect.go ctx fuel rounds q state more rows).onto log := by
  induction rounds generalizing q state more rows with
  | zero => rfl
  | succ rounds ih =>
    rw [collect.go, collect.go, next_onto]
    dsimp only [Answer.onto]
    cases (q.next ctx fuel state more).outcome with
    | value row =>
      cases row with
      | some row => exact ih _ _ _ _
      | none => rfl
    | failed _ | stalled => rfl

end Query

namespace Session

/-- The session with earlier events in front of its log. -/
def onto (s : Session) : Session := { s with log := log ++ s.log }

/-- The session with a new log. -/
def anew (s : Session) : Session := { s with log := #[] }

theorem anew_onto (s : Session) : s.anew.onto s.log = s := by
  simp only [onto, anew, Array.append_empty]

theorem call_onto (s : Session) (c : Call) :
    (s.onto log).call ctx c = ((s.call ctx c).1, (s.call ctx c).2.onto log) := by
  cases c with
  | next fuel => simp only [call, onto, after, Query.next_onto, Answer.onto]
  | first fuel => simp only [call, onto, after, Query.first_onto, Answer.onto]
  | collect fuel =>
    simp only [call, onto, after, Query.collect, Query.collect_go_onto, Answer.onto]
  | count fuel =>
    simp only [call, onto, after, Query.count, Query.collect, Query.collect_go_onto, Answer.onto]
  | close => simp only [call, onto, append_events]
  | cancel => rfl

/-- What a session does goes to the end of its log, and does not depend on what is there. -/
theorem run_onto (s : Session) (calls : List Call) :
    (s.onto log).run ctx calls = ((s.run ctx calls).1, (s.run ctx calls).2.onto log) := by
  induction calls generalizing s with
  | nil => rfl
  | cons c calls ih =>
    simp only [run, call_onto, ih]

end Session

end Logs

/-! ## Books -/

/-- What was due has happened, as the log shows, or is owed for the query; once that is closed,
everything in its pipeline is. -/
structure Query.Keeps (q : Query) (log : Array Event) (due : List Event) : Prop where
  tidy : q.root.Tidy
  settles : Settles (log.toList ++ q.close.2) due
  released : q.closed = true → q.root.Released

section Books

variable {ctx : Context} {due : List Event}

/-- Asking a pipeline for a row keeps the books. -/
theorem Pipe.next_keeps (hctx : ctx.extensions.Careful) (fuel : Nat) {p : Pipe} (hp : p.Tidy)
    (state : RunState) {log : Array Event} (h : Settles (log.toList ++ p.close.2) due) :
    (p.next ctx fuel state log).subject.Tidy ∧
      Settles ((p.next ctx fuel state log).log.toList ++
        (p.next ctx fuel state log).subject.close.2) due := by
  induction fuel generalizing p state log with
  | zero => exact ⟨hp, h⟩
  | succ fuel ih =>
    obtain ⟨hkept, hsettles, -⟩ := step_keeps (Context.compiles_careful hctx) hp none state
    have hlog : Settles ((log ++ (p.step ctx none state).events).toList ++
        (p.step ctx none state).pipe.close.2) due := by
      rw [Array.toList_appendList, List.append_assoc]
      exact h.trans hsettles
    rw [next]
    split
    · exact ih hkept _ hlog
    all_goals exact ⟨hkept, hlog⟩

namespace Query

/-- Closing a query keeps the books, and leaves nothing to be done. -/
theorem Keeps.answerClosing {q : Query} {log : Array Event} (h : q.Keeps log due) {α : Type}
    (outcome : Outcome α) (state : RunState) :
    (q.answerClosing outcome log state).subject.closed = true ∧
      (q.answerClosing outcome log state).subject.Keeps
        (q.answerClosing outcome log state).log due := by
  obtain ⟨htidy, hsettles, hreleased⟩ := h
  unfold Query.answerClosing close at *
  cases hclosed : q.closed with
  | true =>
    simp only [hclosed, if_true] at hsettles ⊢
    refine ⟨trivial, htidy, ?_, fun _ => hreleased hclosed⟩
    rw [close, if_pos hclosed, Array.toList_appendList, List.append_assoc]
    exact hsettles
  | false =>
    simp only [hclosed, Bool.false_eq_true, if_false] at hsettles ⊢
    refine ⟨trivial, (Pipe.Kept.close htidy).1, ?_, fun _ => Pipe.Tidy.close_released htidy⟩
    rw [close, if_pos rfl, Array.toList_appendList, List.append_nil]
    exact hsettles

variable (hctx : ctx.extensions.Careful) {q : Query} {log : Array Event}

include hctx

theorem next_keeps (h : q.Keeps log due) (fuel : Nat) (state : RunState) :
    (q.next ctx fuel state log).subject.Keeps (q.next ctx fuel state log).log due := by
  unfold next
  split
  · exact h
  · next hclosed =>
    have hopen : q.closed = false := eq_false_of_ne_true hclosed
    split
    · exact (h.answerClosing _ state).2
    · have hsettles := h.settles
      rw [close, if_neg hclosed] at hsettles
      obtain ⟨htidy, hroot⟩ := Pipe.next_keeps hctx fuel h.tidy state hsettles
      have hnext : (Query.mk (q.root.next ctx fuel state log).subject false).Keeps
          (q.root.next ctx fuel state log).log due := ⟨htidy, hroot, nofun⟩
      dsimp only
      split
      · exact hnext
      · exact (hnext.answerClosing _ _).2
      · exact (hnext.answerClosing _ _).2
      · exact hnext

theorem first_keeps (h : q.Keeps log due) (fuel : Nat) (state : RunState) :
    (q.first ctx fuel state log).subject.Keeps (q.first ctx fuel state log).log due := by
  have hnext := next_keeps hctx h fuel state
  unfold first
  dsimp only
  split
  · exact (hnext.answerClosing _ _).2
  · exact hnext

theorem collect_go_keeps (h : q.Keeps log due) (fuel rounds : Nat) (state : RunState)
    (rows : Array Binding) : (collect.go ctx fuel rounds q state log rows).subject.Keeps
      (collect.go ctx fuel rounds q state log rows).log due := by
  induction rounds generalizing q state log rows with
  | zero => exact h
  | succ rounds ih =>
    have hnext := next_keeps hctx h fuel state
    rw [collect.go]
    split
    · exact ih hnext _ _
    all_goals exact hnext

end Query

/-- **Calls keep the books.** -/
theorem Session.call_keeps (hctx : ctx.extensions.Careful) {s : Session}
    (h : s.query.Keeps s.log due) (c : Call) :
    (s.call ctx c).2.query.Keeps (s.call ctx c).2.log due := by
  cases c with
  | next fuel => exact Query.next_keeps hctx h fuel s.state
  | first fuel => exact Query.first_keeps hctx h fuel s.state
  | collect fuel => exact Query.collect_go_keeps hctx h fuel fuel s.state #[]
  | count fuel => exact Query.collect_go_keeps hctx h fuel fuel s.state #[]
  | close => exact (h.answerClosing (.stalled : Outcome Unit) s.state).2
  | cancel => exact h

/-- Sessions keep the books. -/
theorem Session.run_keeps (hctx : ctx.extensions.Careful) {s : Session}
    (h : s.query.Keeps s.log due) (calls : List Call) :
    (s.run ctx calls).2.query.Keeps (s.run ctx calls).2.log due := by
  induction calls generalizing s with
  | nil => exact h
  | cons c calls ih => exact ih (call_keeps hctx h c)

end Books

/-! ## Ends -/

section Ends

variable {ctx : Context} {q : Query} {fuel : Nat} {state : RunState} {log : Array Event}

namespace Query

theorem close_closed : q.close.1.closed = true := by
  unfold close
  split
  · next h => exact h
  · rfl

theorem answerClosing_closed {α : Type} (outcome : Outcome α) :
    (q.answerClosing outcome log state).subject.closed = true :=
  close_closed

/-- A query that has no further row or fails is closed. -/
theorem next_closed (h : (q.next ctx fuel state log).outcome = .value none ∨
    ∃ e, (q.next ctx fuel state log).outcome = .failed e) :
    (q.next ctx fuel state log).subject.closed = true := by
  unfold next at h ⊢
  split
  · next hclosed => exact hclosed
  · next hclosed =>
    rw [if_neg hclosed] at h
    split
    · exact answerClosing_closed _
    · next hcancelled =>
      rw [if_neg hcancelled] at h
      dsimp only at h ⊢
      cases ho : (q.root.next ctx fuel state log).outcome with
      | value row =>
        cases row with
        | some row => simp [ho] at h
        | none => exact answerClosing_closed _
      | failed e => exact answerClosing_closed _
      | stalled => simp [ho] at h

theorem first_closed (h : (q.first ctx fuel state log).outcome ≠ .stalled) :
    (q.first ctx fuel state log).subject.closed = true := by
  unfold first at h ⊢
  cases ho : (q.next ctx fuel state log).outcome with
  | value row =>
    simp only [ho]
    exact answerClosing_closed _
  | failed e =>
    simp only [ho]
    exact next_closed (.inr ⟨e, ho⟩)
  | stalled => simp [ho] at h

theorem collect_go_closed {rounds : Nat} {rows : Array Binding}
    (h : (collect.go ctx fuel rounds q state log rows).outcome ≠ .stalled) :
    (collect.go ctx fuel rounds q state log rows).subject.closed = true := by
  induction rounds generalizing q state log rows with
  | zero => exact absurd rfl h
  | succ rounds ih =>
    rw [collect.go] at h ⊢
    cases ho : (q.next ctx fuel state log).outcome with
    | value row =>
      cases row with
      | some row =>
        simp only [ho] at h ⊢
        exact ih h
      | none => exact next_closed (.inl ho)
    | failed e => exact next_closed (.inr ⟨e, ho⟩)
    | stalled => simp [ho] at h

end Query

/-- A call that ends the query closes it. -/
theorem Session.call_ends {s : Session} {c : Call} (h : c.ends (s.call ctx c).1 = true) :
    (s.call ctx c).2.query.closed = true := by
  cases c with
  | next fuel =>
    refine Query.next_closed ?_
    cases ho : (s.query.next ctx fuel s.state s.log).outcome with
    | value row => cases row <;> simp_all [call, Call.ends]
    | failed e => exact .inr ⟨e, rfl⟩
    | stalled => simp_all [call, Call.ends]
  | first fuel =>
    refine Query.first_closed fun ho => ?_
    simp [call, Call.ends, ho] at h
  | collect fuel =>
    refine Query.collect_go_closed fun ho => ?_
    simp [call, Call.ends, Query.collect, ho] at h
  | count fuel =>
    refine Query.collect_go_closed fun ho => ?_
    simp [call, Call.ends, Query.count, Query.collect, ho] at h
  | close => exact Query.close_closed
  | cancel => cases h

end Ends

end TripleQuery
