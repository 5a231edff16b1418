import TripleQuery.Proofs.Answers.Sessions
import TripleQuery.Proofs.Pipe.Lockstep
import TripleQuery.Proofs.Pipe.Replies

/-!
# Calls in lockstep

What holds of single steps holds of calls: two queries with alike pipelines answer a call alike as
long as they hear the same in it (`Query.next_lockstep`), and a call that hears a failure comes to
it, given enough fuel (`Query.next_surfaces`). Where the second run meets no failure of its own, all
calls are answered alike, whatever trackers there are around its stages (`Session.run_alike`).
-/

namespace TripleQuery

/-! ## Failing -/

section Failing

variable {ctx : Context} {p : Pipe} {state : RunState} {log : Array Event}

/-- Given enough fuel, asking the pipeline for a row has the outcome. -/
def Pipe.ComesTo (ctx : Context) (p : Pipe) (state : RunState) (log : Array Event)
    (o : Outcome (Option Binding)) : Prop :=
  ∃ n, ∀ fuel, n ≤ fuel → (p.next ctx fuel state log).outcome = o

theorem Pipe.ComesTo.of_fail {e : ExecError} (h : (p.step ctx none state).signal = .fail e) :
    p.ComesTo ctx state log (.failed e) := by
  refine ⟨1, fun fuel hfuel => ?_⟩
  obtain ⟨fuel, rfl⟩ : ∃ m, fuel = m + 1 := ⟨fuel - 1, by omega⟩
  rw [Pipe.next]
  simp only [h]

theorem Pipe.ComesTo.of_skip {o : Outcome (Option Binding)}
    (hskip : (p.step ctx none state).signal = .skip)
    (h : (p.step ctx none state).pipe.ComesTo ctx (p.step ctx none state).state
      (log ++ (p.step ctx none state).events) o) : p.ComesTo ctx state log o := by
  obtain ⟨n, hn⟩ := h
  refine ⟨n + 1, fun fuel hfuel => ?_⟩
  obtain ⟨fuel, rfl⟩ : ∃ m, fuel = m + 1 := ⟨fuel - 1, by omega⟩
  rw [Pipe.next]
  simp only [hskip]
  exact hn fuel (by omega)

variable {e : ExecError}

/-- A pipeline that fails for sure fails when it is asked for a row. -/
theorem Failing.comesTo (h : Failing ctx e p) : p.ComesTo ctx state log (.failed e) := by
  induction h generalizing state log with
  | intro h hq ih =>
    rcases h none state with hfail | hskip
    · exact .of_fail hfail
    · exact .of_skip hskip (ih none state hskip)

/-- So does a pipeline with a step that fails. -/
theorem Step.Fails.comesTo (h : (p.step ctx none state).Fails ctx e) :
    p.ComesTo ctx state log (.failed e) := by
  rcases h with hfail | ⟨hskip, hq⟩
  · exact .of_fail hfail
  · exact .of_skip hskip hq.comesTo

end Failing

/-! ## What a call hears -/

/-- Whether some answers contain a failure. -/
def Hears (e : DatasetError) (answers : List Heard) : Prop :=
  ∃ a ∈ answers, a.failure? = some e

/-- The answers that a pipeline gets while it is asked for a row. -/
def Pipe.hearing (ctx : Context) : Nat → Pipe → RunState → List Heard
  | 0, _, _ => []
  | fuel + 1, p, state =>
    p.heard ctx none state ++
      if (p.step ctx none state).signal = .skip then
        hearing ctx fuel (p.step ctx none state).pipe (p.step ctx none state).state
      else []

/-- The answers that a query gets while it is asked for a row. -/
def Query.hearing (ctx : Context) (fuel : Nat) (q : Query) (state : RunState) : List Heard :=
  if q.closed then [] else if state.cancelled then [] else q.root.hearing ctx fuel state

/-- The answers that a query gets while it is asked for several rows, one after the other. -/
def Session.hearing (ctx : Context) (s : Session) : List Nat → List Heard
  | [] => []
  | fuel :: fuels =>
    s.query.hearing ctx fuel s.state ++ (s.call ctx (.next fuel)).2.hearing ctx fuels

/-- Every failure that a step hears makes it fail. -/
theorem Pipe.heard_fails (ctx : Context) (p : Pipe) (scope : Option SharedRows) (state : RunState)
    {e : DatasetError} (h : Hears e (p.heard ctx scope state)) :
    (p.step ctx scope state).Fails ctx (.dataset e) := by
  obtain ⟨a, ha, he⟩ := h
  have hlock := (Pipe.Alike.refl .untracked p).lockstep (Dataset.Alike.refl .untracked ctx.dataset)
    scope state
  exact hlock.surfaces a ha e he

theorem hears_nil {e : DatasetError} : ¬ Hears e [] :=
  fun ⟨_, ha, _⟩ => absurd ha List.not_mem_nil

theorem hears_append {e : DatasetError} {xs ys : List Heard} :
    Hears e (xs ++ ys) ↔ Hears e xs ∨ Hears e ys := by
  unfold Hears
  simp only [List.mem_append, or_and_right, exists_or]

/-- A pipeline that hears a failure while it is asked for a row comes to it. -/
theorem Pipe.next_surfaces (ctx : Context) (fuel : Nat) (p : Pipe) (state : RunState)
    (log : Array Event) {e : DatasetError} (h : Hears e (p.hearing ctx fuel state)) :
    p.ComesTo ctx state log (.failed (.dataset e)) := by
  induction fuel generalizing p state log with
  | zero => exact absurd h hears_nil
  | succ fuel ih =>
    rw [hearing, hears_append] at h
    rcases h with h | h
    · exact (p.heard_fails ctx none state h).comesTo
    · by_cases hskip : (p.step ctx none state).signal = .skip
      · rw [if_pos hskip] at h
        exact .of_skip hskip (ih _ _ _ h)
      · rw [if_neg hskip] at h
        exact absurd h hears_nil

/-- **Failures surface.** A call that hears a failure comes to it, given enough fuel, and the query
is closed. -/
theorem Query.next_surfaces (ctx : Context) {fuel : Nat} {q : Query} {state : RunState}
    (log : Array Event) {e : DatasetError} (h : Hears e (q.hearing ctx fuel state)) :
    ∃ n, ∀ fuel, n ≤ fuel → (q.next ctx fuel state log).outcome = .failed (.dataset e) := by
  unfold hearing at h
  by_cases hclosed : q.closed = true
  · rw [if_pos hclosed] at h
    exact absurd h hears_nil
  · rw [if_neg hclosed] at h
    by_cases hcancelled : state.cancelled = true
    · rw [if_pos hcancelled] at h
      exact absurd h hears_nil
    · rw [if_neg hcancelled] at h
      obtain ⟨n, hn⟩ := q.root.next_surfaces ctx fuel state log h
      refine ⟨n, fun fuel hfuel => ?_⟩
      unfold Query.next
      rw [if_neg hclosed, if_neg hcancelled]
      simp only [hn fuel hfuel]
      rfl

/-! ## What is heard is what was asked -/

theorem Pipe.hearing_replies (ctx : Context) (fuel : Nat) (p : Pipe) (state : RunState)
    (log : Array Event) :
    state.Told ctx.dataset (p.hearing ctx fuel state) (p.next ctx fuel state log).state := by
  induction fuel generalizing p state log with
  | zero => exact .unchanged rfl
  | succ fuel ih =>
    have hstep := p.heard_replies ctx none state
    rw [hearing, next]
    cases hs : (p.step ctx none state).signal with
    | skip =>
      simp only [if_true]
      exact hstep.append (ih _ _ _)
    | yield _ | await | fail _ | done =>
      simp only [reduceCtorEq, if_false, List.append_nil]
      exact hstep

theorem Query.hearing_replies (ctx : Context) (fuel : Nat) (q : Query) (state : RunState)
    (log : Array Event) :
    state.Told ctx.dataset (q.hearing ctx fuel state) (q.next ctx fuel state log).state := by
  unfold hearing next
  split
  · exact .unchanged rfl
  · split
    · exact .unchanged rfl
    · have hroot := q.root.hearing_replies ctx fuel state log
      dsimp only
      split
      · exact hroot.extend (RunState.recordProduced_counts _ ctx.config 1)
      all_goals exact hroot

/-- **All questions of a session are heard.** While its query is asked for rows, the counters of the
run advance by the openings and the listings that are heard, and each of them is the reply to the
question of its number. -/
theorem Session.hearing_replies (ctx : Context) (s : Session) (fuels : List Nat) :
    s.state.Told ctx.dataset (s.hearing ctx fuels) (s.run ctx (fuels.map .next)).2.state := by
  induction fuels generalizing s with
  | nil => exact .unchanged rfl
  | cons fuel fuels ih =>
    exact (s.query.hearing_replies ctx fuel s.state s.log).append (ih (s.call ctx (.next fuel)).2)

/-! ## Alike answers -/

section Alike

variable (c : Comparison)

/-- Two queries are in the same state, with alike pipelines. -/
structure Query.Alike (q q' : Query) : Prop where
  root : q.root.Alike c q'.root
  closed : q'.closed = q.closed

/-- Two answers are the same but for what they are about, which is related. -/
structure Answer.Alike {σ α : Type} (R : σ → σ → Prop) (a a' : Answer σ α) : Prop where
  outcome : a'.outcome = a.outcome
  subject : R a.subject a'.subject
  log : c.view a.log.toList = c.view a'.log.toList
  state : a'.state = a.state

/-- Two sessions are at the same point. -/
structure Session.Alike (s s' : Session) : Prop where
  query : s.query.Alike c s'.query
  state : s'.state = s.state
  log : c.view s.log.toList = c.view s'.log.toList

end Alike

section Calls

variable {c : Comparison} {ctx : Context} {d : Dataset} {log log' : Array Event}

theorem view_log (hlog : c.view log.toList = c.view log'.toList) {events events' : List Event}
    (h : c.view events = c.view events') :
    c.view (log ++ events).toList = c.view (log' ++ events').toList := by
  rw [Array.toList_appendList, Array.toList_appendList]
  exact c.view_append_congr hlog h

/-- Alike pipelines that are asked for a row hear the same and answer alike, or the second one hears
the failure. -/
theorem Pipe.Alike.next (hd : ctx.dataset.Alike c d) (fuel : Nat) {p p' : Pipe}
    (h : p.Alike c p') (state : RunState) (hlog : c.view log.toList = c.view log'.toList) :
    (p.hearing ctx fuel state = p'.hearing (ctx.given d) fuel state ∧
      Answer.Alike c (Pipe.Alike c) (p.next ctx fuel state log)
        (p'.next (ctx.given d) fuel state log')) ∨
      ∃ e, c.fault = some e ∧
        Parted e (p.hearing ctx fuel state) (p'.hearing (ctx.given d) fuel state) := by
  induction fuel generalizing p p' state log log' with
  | zero => exact .inl ⟨rfl, rfl, h, hlog, rfl⟩
  | succ fuel ih =>
    rw [hearing, hearing]
    rcases (h.lockstep hd none state).parts with ⟨hheard, hs⟩ | ⟨e, he, hparted⟩
    · have hmore := view_log hlog hs.events
      rw [hheard, Pipe.next, Pipe.next, hs.signal, hs.state]
      cases hsignal : (p.step ctx none state).signal with
      | skip =>
        simp only [if_true]
        rcases ih hs.pipe (p.step ctx none state).state hmore with ⟨hsame, ha⟩ | ⟨e, he, hparted⟩
        · exact .inl ⟨by rw [hsame], ha⟩
        · exact .inr ⟨e, he, hparted.prepend _⟩
      | yield _ | await | fail _ | done =>
        simp only [reduceCtorEq, if_false]
        exact .inl ⟨trivial, rfl, hs.pipe, hmore, rfl⟩
    · exact .inr ⟨e, he, hparted.append _ _⟩

theorem Query.Alike.close {q q' : Query} (h : q.Alike c q') :
    q.close.1.Alike c q'.close.1 ∧ c.view q.close.2 = c.view q'.close.2 := by
  obtain ⟨hroot, hclosed⟩ := h
  obtain ⟨hc, hv⟩ := hroot.close
  unfold Query.close
  rw [hclosed]
  split
  · exact ⟨⟨hroot, hclosed⟩, rfl⟩
  · exact ⟨⟨hc, rfl⟩, hv⟩

theorem Query.Alike.answerClosing {q q' : Query} (h : q.Alike c q')
    (hlog : c.view log.toList = c.view log'.toList) {α : Type} (outcome : Outcome α)
    (state : RunState) :
    Answer.Alike c (Query.Alike c) (q.answerClosing outcome log state)
      (q'.answerClosing outcome log' state) :=
  ⟨rfl, h.close.1, view_log hlog h.close.2, rfl⟩

/-- **Calls in lockstep.** Alike queries that are asked for a row hear the same and answer alike, or
the second one hears the failure. -/
theorem Query.next_lockstep (hd : ctx.dataset.Alike c d) (fuel : Nat) {q q' : Query}
    (h : q.Alike c q') (state : RunState) (hlog : c.view log.toList = c.view log'.toList) :
    (q.hearing ctx fuel state = q'.hearing (ctx.given d) fuel state ∧
      Answer.Alike c (Query.Alike c) (q.next ctx fuel state log)
        (q'.next (ctx.given d) fuel state log')) ∨
      ∃ e, c.fault = some e ∧
        Parted e (q.hearing ctx fuel state) (q'.hearing (ctx.given d) fuel state) := by
  unfold hearing next
  rw [h.closed]
  split
  · exact .inl ⟨rfl, rfl, h, hlog, rfl⟩
  · split
    · exact .inl ⟨rfl, h.answerClosing hlog _ state⟩
    · rcases h.root.next hd fuel state hlog with ⟨hsame, ha⟩ | hparted
      · refine .inl ⟨hsame, ?_⟩
        have hq : Query.Alike c ⟨(q.root.next ctx fuel state log).subject, false⟩
            ⟨(q'.root.next (ctx.given d) fuel state log').subject, false⟩ := ⟨ha.subject, rfl⟩
        dsimp only
        rw [ha.outcome, ha.state]
        cases (q.root.next ctx fuel state log).outcome with
        | value row =>
          cases row with
          | some row => exact ⟨rfl, hq, ha.log, rfl⟩
          | none => exact hq.answerClosing ha.log _ _
        | failed e => exact hq.answerClosing ha.log _ _
        | stalled => exact ⟨rfl, hq, ha.log, rfl⟩
      · exact .inr hparted

end Calls

/-! ## Runs without failures of their own -/

section Unharmed

variable {c : Comparison} (hc : c.fault = none) (ctx : Context)

include hc

namespace Query.Alike

variable {q q' : Query} {log log' : Array Event}

theorem next (h : q.Alike c q') (fuel : Nat) (state : RunState)
    (hlog : c.view log.toList = c.view log'.toList) :
    Answer.Alike c (Query.Alike c) (q.next ctx fuel state log) (q'.next ctx fuel state log') := by
  rcases Query.next_lockstep (Dataset.Alike.refl c ctx.dataset) fuel h state hlog with
    ⟨-, ha⟩ | ⟨e, he, -⟩
  · exact ha
  · rw [hc] at he
    cases he

theorem first (h : q.Alike c q') (fuel : Nat) (state : RunState)
    (hlog : c.view log.toList = c.view log'.toList) :
    Answer.Alike c (Query.Alike c) (q.first ctx fuel state log) (q'.first ctx fuel state log') := by
  have ha := next hc ctx h fuel state hlog
  unfold Query.first
  dsimp only
  rw [ha.outcome, ha.state]
  cases (q.next ctx fuel state log).outcome with
  | value row => exact ha.subject.answerClosing ha.log _ _
  | failed _ | stalled => exact ha

theorem collect_go (h : q.Alike c q') (fuel rounds : Nat) (state : RunState)
    (hlog : c.view log.toList = c.view log'.toList) (rows : Array Binding) :
    Answer.Alike c (Query.Alike c) (collect.go ctx fuel rounds q state log rows)
      (collect.go ctx fuel rounds q' state log' rows) := by
  induction rounds generalizing q q' state log log' rows with
  | zero => exact ⟨rfl, h, hlog, rfl⟩
  | succ rounds ih =>
    have ha := next hc ctx h fuel state hlog
    rw [collect.go, collect.go]
    rw [ha.outcome, ha.state]
    cases (q.next ctx fuel state log).outcome with
    | value row =>
      cases row with
      | some row => exact ih ha.subject _ ha.log _
      | none => exact ⟨rfl, ha.subject, ha.log, rfl⟩
    | failed _ | stalled => exact ⟨rfl, ha.subject, ha.log, rfl⟩

end Query.Alike

namespace Session

variable {s s' : Session}

theorem call_alike (h : s.Alike c s') (call : Call) :
    (s'.call ctx call).1 = (s.call ctx call).1 ∧
      (s.call ctx call).2.Alike c (s'.call ctx call).2 := by
  obtain ⟨hq, hstate, hlog⟩ := h
  unfold Session.call
  rw [hstate]
  cases call with
  | next fuel =>
    have ha := Query.Alike.next hc ctx hq fuel s.state hlog
    exact ⟨congrArg Response.row ha.outcome, ha.subject, ha.state, ha.log⟩
  | first fuel =>
    have ha := Query.Alike.first hc ctx hq fuel s.state hlog
    exact ⟨congrArg Response.row ha.outcome, ha.subject, ha.state, ha.log⟩
  | collect fuel =>
    have ha := Query.Alike.collect_go hc ctx hq fuel fuel s.state hlog #[]
    exact ⟨congrArg Response.rows ha.outcome, ha.subject, ha.state, ha.log⟩
  | count fuel =>
    have ha := Query.Alike.collect_go hc ctx hq fuel fuel s.state hlog #[]
    refine ⟨congrArg Response.number ?_, ha.subject, ha.state, ha.log⟩
    unfold Query.count Query.collect
    dsimp only
    rw [ha.outcome]
  | close => exact ⟨rfl, hq.close.1, rfl, view_log hlog hq.close.2⟩
  | cancel => exact ⟨rfl, hq, rfl, hlog⟩

/-- **Sessions in lockstep.** Two sessions that are at the same point stay so, whatever the calls,
and get the same responses. -/
theorem run_alike (h : s.Alike c s') (calls : List Call) :
    (s'.run ctx calls).1 = (s.run ctx calls).1 ∧
      (s.run ctx calls).2.Alike c (s'.run ctx calls).2 := by
  induction calls generalizing s s' with
  | nil => exact ⟨rfl, h⟩
  | cons call calls ih =>
    obtain ⟨hresponse, hcall⟩ := call_alike hc ctx h call
    obtain ⟨hresponses, hrun⟩ := ih hcall
    exact ⟨congrArg₂ List.cons hresponse hresponses, hrun⟩

end Session

end Unharmed

end TripleQuery
