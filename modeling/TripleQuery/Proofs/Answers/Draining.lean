import TripleQuery.Proofs.Answers.Basic
import TripleQuery.Proofs.Answers.SingleUse
import TripleQuery.Proofs.Pipe.Counters

/-!
# One run

`Runs` says what a pipeline comes to whatever the state of the run. Some pipelines, such as the
input of a stage that may be anything, come to a flow from one state on only. `Step.ComesTo` is
about this one run: the step and those after it come to the flow, and leave the run in a state.

Who drains a pipeline to some rows has seen such a run (`Pipe.comesTo_of_drain`), and such a run is
what anyone drains and what anyone is answered (`Step.ComesTo.drains`, `Step.ComesTo.replies`).
-/

namespace TripleQuery

variable {ctx : Context} {p : Pipe} {f : Flow} {s : Step} {state out : RunState}

/-- The step, and the steps after it, come to the flow; `out` is the state of the run then. -/
inductive Step.ComesTo (ctx : Context) (out : RunState) : Step → Flow → Prop where
  | done {q : Pipe} {events : List Event} : ComesTo ctx out ⟨.done, q, events, out⟩ .done
  | fail {q : Pipe} {events : List Event} {e : ExecError} :
    ComesTo ctx out ⟨.fail e, q, events, out⟩ (.fail e)
  | skip {q : Pipe} {events : List Event} {state : RunState} {f : Flow}
    (h : ComesTo ctx out (q.step ctx none state) f) : ComesTo ctx out ⟨.skip, q, events, state⟩ f
  | yield {q : Pipe} {events : List Event} {state : RunState} {b : Binding} {f : Flow}
    (h : ComesTo ctx out (q.step ctx none state) f) :
    ComesTo ctx out ⟨.yield b, q, events, state⟩ (.row b f)

/-- Someone who drains the pipeline from the state on comes to the outcome, with enough fuel, and
else to none. -/
def Pipe.DrainsFrom (ctx : Context) (p : Pipe) (state : RunState) (o : Outcome (List Binding)) :
    Prop :=
  ∃ n, ∀ fuel log, (p.drain ctx fuel state log).outcome = if n ≤ fuel then o else .stalled

/-- What someone is told, one after the other, who asks until there is no further row. -/
def Flow.replies : Flow → List Use.Reply
  | done => [some (.value none)]
  | fail e => [some (.failed e)]
  | row b rest => some (.value (some b)) :: rest.replies

theorem Flow.replies_ofRows_append (rows : List Binding) (f : Flow) :
    (ofRows rows ++ f).replies = rows.map (fun b => some (.value (some b))) ++ f.replies := by
  induction rows with
  | nil => rfl
  | cons b rows ih => exact congrArg (some (.value (some b)) :: ·) ih

namespace Step.ComesTo

/-- What has happened before a step does not matter. -/
theorem after (h : s.ComesTo ctx out f) (events : List Event) :
    (s.after events).ComesTo ctx out f := by
  cases h with
  | done => exact .done
  | fail => exact .fail
  | skip h => exact .skip h
  | yield h => exact .yield h

/-- A run that ends uncancelled is so on the way. -/
theorem running (h : s.ComesTo ctx out f) (hout : out.cancelled = false) :
    s.state.cancelled = false := by
  induction h with
  | done | fail => exact hout
  | @skip q _ state _ _ ih | @yield q _ state _ _ _ ih =>
    exact (q.step_advances ctx none state).running ih

theorem drain_go (h : s.ComesTo ctx out f) : ∃ n, ∀ {p : Pipe} {state : RunState},
    p.step ctx none state = s → ∀ fuel log rows, (Pipe.drain.go ctx fuel p state log rows).outcome =
      if n ≤ fuel then (Flow.ofRows rows.toList ++ f).outcome else .stalled := by
  induction h with
  | done =>
    refine ⟨1, fun hstep fuel log rows => ?_⟩
    cases fuel with
    | zero => rfl
    | succ fuel =>
      rw [Pipe.drain.go, hstep, if_pos (Nat.le_add_left 1 fuel), Flow.append_done,
        Flow.outcome_ofRows]
  | fail =>
    refine ⟨1, fun hstep fuel log rows => ?_⟩
    cases fuel with
    | zero => rfl
    | succ fuel => rw [Pipe.drain.go, hstep, if_pos (Nat.le_add_left 1 fuel), outcome_fail]
  | skip h ih =>
    obtain ⟨n, hn⟩ := ih
    refine ⟨n + 1, fun hstep fuel log rows => ?_⟩
    cases fuel with
    | zero => rfl
    | succ fuel =>
      rw [Pipe.drain.go, hstep]
      simp only [Nat.add_le_add_iff_right]
      exact hn rfl _ _ _
  | yield h ih =>
    obtain ⟨n, hn⟩ := ih
    refine ⟨n + 1, fun hstep fuel log rows => ?_⟩
    cases fuel with
    | zero => rfl
    | succ fuel =>
      rw [Pipe.drain.go, hstep]
      simp only [Nat.add_le_add_iff_right]
      rw [hn rfl, outcome_push]

/-- **Draining** comes to the outcome of the flow. -/
theorem drains (h : (p.step ctx none state).ComesTo ctx out f) :
    p.DrainsFrom ctx state f.outcome := by
  obtain ⟨n, hn⟩ := h.drain_go
  exact ⟨n, fun fuel log => hn rfl fuel log #[]⟩

/-- The first answer, and the run after it. -/
theorem next (h : s.ComesTo ctx out f) : ∃ (n : Nat) (q : Pipe) (state' : RunState),
    (∀ b rest, f = .row b rest → (q.step ctx none state').ComesTo ctx out rest) ∧
      ∀ {p : Pipe} {state : RunState}, p.step ctx none state = s → ∀ fuel log, n ≤ fuel →
        ∃ log', p.next ctx fuel state log = ⟨f.head, q, log', state'⟩ := by
  induction h with
  | @done q events =>
    refine ⟨1, q, out, fun b rest heq => ?_, fun hstep fuel log hfuel => ?_⟩
    · cases heq
    · obtain ⟨fuel, rfl⟩ := Nat.exists_eq_add_of_le' hfuel
      rw [Pipe.next, hstep]
      exact ⟨_, rfl⟩
  | @fail q events e =>
    refine ⟨1, q, out, fun b rest heq => ?_, fun hstep fuel log hfuel => ?_⟩
    · cases heq
    · obtain ⟨fuel, rfl⟩ := Nat.exists_eq_add_of_le' hfuel
      rw [Pipe.next, hstep]
      exact ⟨_, rfl⟩
  | skip h ih =>
    obtain ⟨n, q, state', hrest, hn⟩ := ih
    refine ⟨n + 1, q, state', hrest, fun hstep fuel log hfuel => ?_⟩
    obtain ⟨fuel, rfl⟩ := Nat.exists_eq_add_of_le' (Nat.le_of_add_left_le hfuel)
    rw [Pipe.next, hstep]
    exact hn rfl fuel _ (Nat.le_of_succ_le_succ hfuel)
  | @yield q events state b f h =>
    refine ⟨1, q, state, fun b rest heq => ?_, fun hstep fuel log hfuel => ?_⟩
    · cases heq
      exact h
    · obtain ⟨fuel, rfl⟩ := Nat.exists_eq_add_of_le' hfuel
      rw [Pipe.next, hstep]
      exact ⟨_, rfl⟩

/-- **Asking** again and again is answered by the rows, and then by the end or the failure. -/
theorem replies (h : (p.step ctx none state).ComesTo ctx out f) : ∃ n, ∀ fuel log, n ≤ fuel →
    ((Held.mk p state log).run ctx (List.replicate f.replies.length (.next fuel))).1.map (·.2) =
      f.replies := by
  induction f generalizing p state with
  | done =>
    obtain ⟨n, q, state', -, hn⟩ := h.next
    refine ⟨n, fun fuel log hfuel => ?_⟩
    obtain ⟨log', hnext⟩ := hn rfl fuel log hfuel
    exact congrArg (fun a : Answer Pipe _ => [some a.outcome]) hnext
  | fail e =>
    obtain ⟨n, q, state', -, hn⟩ := h.next
    refine ⟨n, fun fuel log hfuel => ?_⟩
    obtain ⟨log', hnext⟩ := hn rfl fuel log hfuel
    exact congrArg (fun a : Answer Pipe _ => [some a.outcome]) hnext
  | row b rest ih =>
    obtain ⟨n, q, state', hrest, hn⟩ := h.next
    obtain ⟨m, hm⟩ := ih (hrest b rest rfl)
    refine ⟨max n m, fun fuel log hfuel => ?_⟩
    obtain ⟨log', hnext⟩ := hn rfl fuel log (Nat.le_trans (Nat.le_max_left n m) hfuel)
    have hreplies := hm fuel log' (Nat.le_trans (Nat.le_max_right n m) hfuel)
    have huse : (Held.mk p state log).use ctx (.next fuel) =
        (some (.value (some b)), ⟨q, state', log'⟩) :=
      congrArg (fun a => (some a.outcome, Held.mk a.subject a.state a.log)) hnext
    rw [Flow.replies, List.length_cons, List.replicate_succ, Held.run, huse]
    exact congrArg (some (.value (some b)) :: ·) hreplies

end Step.ComesTo

namespace Pipe

theorem comesTo_of_drain_go {fuel : Nat} {log : Array Event} {gathered : Array Binding}
    {rows : List Binding} (h : (drain.go ctx fuel p state log gathered).outcome = .value rows) :
    ∃ more, rows = gathered.toList ++ more ∧ (p.step ctx none state).ComesTo ctx
      (drain.go ctx fuel p state log gathered).state (.ofRows more) := by
  induction fuel generalizing p state log gathered with
  | zero => cases h
  | succ fuel ih =>
    rw [drain.go] at h ⊢
    generalize p.step ctx none state = s at h ⊢
    obtain ⟨signal, q, events, state'⟩ := s
    cases signal with
    | skip =>
      obtain ⟨more, hrows, hmore⟩ := ih h
      exact ⟨more, hrows, .skip hmore⟩
    | yield b =>
      obtain ⟨more, hrows, hmore⟩ := ih h
      refine ⟨b :: more, ?_, .yield hmore⟩
      rw [hrows, Array.toList_push, List.append_assoc]
      rfl
    | done =>
      cases h
      exact ⟨[], (List.append_nil _).symm, .done⟩
    | fail _ | await => cases h

/-- Who drains a pipeline has seen it come to the rows. -/
theorem comesTo_of_drain {fuel : Nat} {log : Array Event} {rows : List Binding}
    (h : (p.drain ctx fuel state log).outcome = .value rows) :
    (p.step ctx none state).ComesTo ctx (p.drain ctx fuel state log).state (.ofRows rows) := by
  obtain ⟨more, hrows, hmore⟩ := comesTo_of_drain_go h
  rwa [hrows]

end Pipe

end TripleQuery
