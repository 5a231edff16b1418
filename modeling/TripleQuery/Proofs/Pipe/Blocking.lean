import TripleQuery.Proofs.Pipe.Step

/-!
# Waiting and failing

A reader that is ahead of its scope waits, and every stage between the two waits with it. If what
the scope reads is a failure, the scope notes it, and it takes a further step until the reader
reports it. `Blocked` says of a pipeline that it would wait again and that it reports a failure that
its scope has noted; `Failing` says of a pipeline that it comes to a failure whatever happens around
it. Stages hand both on (`Failing.held`, `Blocked.held`), and so do scopes.
-/

namespace TripleQuery

/-! ## Failing -/

/-- The pipeline comes to the failure, wherever and in whatever state it is asked, and to nothing
before. -/
inductive Failing (ctx : Context) (e : ExecError) : Pipe → Prop where
  | intro {p : Pipe}
    (h : ∀ scope state, (p.step ctx scope state).signal = .fail e ∨
      (p.step ctx scope state).signal = .skip)
    (hq : ∀ scope state, (p.step ctx scope state).signal = .skip →
      Failing ctx e (p.step ctx scope state).pipe) : Failing ctx e p

/-- The step is a failure or leads to one. -/
def Step.Fails (ctx : Context) (e : ExecError) (s : Step) : Prop :=
  s.signal = .fail e ∨ (s.signal = .skip ∧ Failing ctx e s.pipe)

section Failing

variable {ctx : Context} {e : ExecError} {p : Pipe}

theorem Failing.fails (h : Failing ctx e p) (scope : Option SharedRows) (state : RunState) :
    (p.step ctx scope state).Fails ctx e := by
  obtain ⟨h, hq⟩ := h
  exact (h scope state).imp_right fun hskip => ⟨hskip, hq scope state hskip⟩

theorem Failing.of_fails (h : ∀ scope state, (p.step ctx scope state).Fails ctx e) :
    Failing ctx e p := by
  refine .intro (fun scope state => (h scope state).imp_right And.left) ?_
  intro scope state hskip
  rcases h scope state with hfail | ⟨-, hq⟩
  · rw [hskip] at hfail
    cases hfail
  · exact hq

end Failing

/-- While it waits for a row, a stage takes its steps with its input. -/
def Lingers (ctx : Context) (hold drop : Pipe → Pipe) (onRow : Binding → Pipe → RunState → Step)
    (onEnd : Pipe → RunState → Step) : Prop :=
  ∀ q scope state, (hold q).step ctx scope state =
    (q.step ctx scope state).feedOr hold drop onRow onEnd

section Stages

variable {ctx : Context} {e : ExecError} {hold drop : Pipe → Pipe}
  {onRow : Binding → Pipe → RunState → Step} {onEnd : Pipe → RunState → Step}

theorem feedOr_of_fail {s : Step} (h : s.signal = .fail e) :
    (s.feedOr hold drop onRow onEnd).signal = .fail e := by
  unfold Step.feedOr
  simp only [h]

theorem feedOr_of_wait {s : Step} (h : s.signal = .skip ∨ s.signal = .await) :
    s.feedOr hold drop onRow onEnd = { s with pipe := hold s.pipe } := by
  unfold Step.feedOr
  rcases h with h | h <;> simp only [h]

theorem Failing.held (hstage : Lingers ctx hold drop onRow onEnd) {q : Pipe}
    (h : Failing ctx e q) : Failing ctx e (hold q) := by
  induction h with
  | intro h hq ih =>
    refine .of_fails fun scope state => ?_
    rw [hstage]
    rcases h scope state with hfail | hskip
    · exact .inl (feedOr_of_fail hfail)
    · rw [feedOr_of_wait (.inl hskip)]
      exact .inr ⟨hskip, ih scope state hskip⟩

/-- A stage over a step that fails does so too. -/
theorem Step.Fails.feedOr (hstage : Lingers ctx hold drop onRow onEnd) {s : Step}
    (h : s.Fails ctx e) : (s.feedOr hold drop onRow onEnd).Fails ctx e := by
  rcases h with hfail | ⟨hskip, hq⟩
  · exact .inl (feedOr_of_fail hfail)
  · rw [feedOr_of_wait (.inl hskip)]
    exact .inr ⟨hskip, hq.held hstage⟩

end Stages

/-! ## Waiting -/

/-- The pipeline waits for its scope, and would do so again; of a failure that the scope notes it
reports. -/
structure Blocked (ctx : Context) (shared : SharedRows) (p : Pipe) : Prop where
  again : ∀ state, (p.step ctx (some shared) state).signal = .await ∧
    (p.step ctx (some shared) state).pipe = p ∧
    (p.step ctx (some shared) state).events.any Event.isRelease = false
  reports : ∀ e state, (p.step ctx (some { shared with fault := some e }) state).Fails ctx e

section Blocked

variable {ctx : Context} {e : ExecError} {shared outer : SharedRows} {q input body : Pipe}

theorem Blocked.held {hold drop : Pipe → Pipe} {onRow : Binding → Pipe → RunState → Step}
    {onEnd : Pipe → RunState → Step} (hstage : Lingers ctx hold drop onRow onEnd)
    (h : Blocked ctx shared q) : Blocked ctx shared (hold q) where
  again state := by
    obtain ⟨hsignal, hpipe, hevents⟩ := h.again state
    rw [hstage, feedOr_of_wait (.inr hsignal)]
    exact ⟨hsignal, congrArg hold hpipe, hevents⟩
  reports e state := by
    rw [hstage]
    exact (h.reports e state).feedOr hstage

/-- A reader that is ahead of its scope. -/
theorem Blocked.replay {position : Nat} (hclean : shared.fault = none)
    (hrow : shared.rows[position]? = none) (hopen : shared.inputDone = false) :
    Blocked ctx shared (.replay .active position) where
  again state := by
    rw [Pipe.step_replay rfl]
    unfold replayStep
    simp only [hclean, hrow, hopen]
    exact ⟨rfl, rfl, rfl⟩
  reports e state := by
    rw [Pipe.step_replay rfl]
    exact .inl rfl

/-! ### Trackers -/

theorem Failing.tracked (h : Failing ctx e q) (id : String) (calling : Bool) :
    Failing ctx e (.tracked id calling q) := by
  induction h generalizing calling with
  | intro h hq ih =>
    refine .of_fails fun scope state => ?_
    rw [Pipe.step_tracked]
    rcases h scope state with hfail | hskip
    · exact .inl hfail
    · exact .inr ⟨hskip, ih scope state hskip _⟩

theorem Blocked.tracked (h : Blocked ctx shared q) (id : String) :
    Blocked ctx shared (.tracked id true q) where
  again state := by
    obtain ⟨hsignal, hpipe, hevents⟩ := h.again state
    rw [Pipe.step_tracked]
    refine ⟨hsignal, ?_, hevents⟩
    show Pipe.tracked id (q.step ctx (some shared) state).signal.isPending
      (q.step ctx (some shared) state).pipe = _
    rw [hsignal, hpipe]
    rfl
  reports e state := by
    rw [Pipe.step_tracked]
    exact (h.reports e state).imp_right fun ⟨hskip, hq⟩ => ⟨hskip, hq.tracked id _⟩

/-! ### Scopes -/

/-- What a scope does with a step of its body that gives no reason to read on. -/
theorem share_passes (input : Pipe) (scope : Option SharedRows) {state : RunState}
    (h : (body.step ctx (some shared) state).signal ≠ .await) :
    ∃ shared' input', ((Pipe.share shared input body).step ctx scope state).signal =
        (body.step ctx (some shared) state).signal ∧
      ((Pipe.share shared input body).step ctx scope state).pipe =
        .share shared' input' (body.step ctx (some shared) state).pipe := by
  rw [Pipe.step_share]
  split
  · refine ⟨_, _, ?_, rfl⟩
    unfold shareSettle
    exact if_neg h
  · exact ⟨_, _, rfl, rfl⟩

/-- What a scope does with a step of its body that waits. -/
theorem share_reads {scope : Option SharedRows} {state : RunState}
    (h : (body.step ctx (some shared) state).signal = .await)
    (hevents : (body.step ctx (some shared) state).events.any Event.isRelease = false) :
    (Pipe.share shared input body).step ctx scope state =
      shareRead shared.clear (body.step ctx (some shared) state).pipe
        (body.step ctx (some shared) state).events
        (input.step ctx scope (body.step ctx (some shared) state).state) := by
  rw [Pipe.step_share, if_neg (ne_true_of_eq_false hevents), if_pos h]

theorem Step.Fails.running {s : Step} (h : s.Fails ctx e) : s.signal ≠ .await := by
  rcases h with h | ⟨h, -⟩
  all_goals
    rw [h]
    nofun

/-- A scope with a body that fails for sure. -/
theorem Failing.share_body (h : Failing ctx e body) (shared : SharedRows) (input : Pipe) :
    Failing ctx e (.share shared input body) := by
  induction h generalizing shared input with
  | @intro body h hq ih =>
    refine .of_fails fun scope state => ?_
    have hfails := (Failing.intro h hq).fails (some shared) state
    obtain ⟨shared', input', hsignal, hpipe⟩ :=
      share_passes input scope hfails.running
    refine (h (some shared) state).imp hsignal.trans fun hskip => ⟨hsignal.trans hskip, ?_⟩
    rw [hpipe]
    exact ih (some shared) state hskip shared' input'

/-- A scope over a step of its body that fails. -/
theorem share_fails {scope : Option SharedRows} {state : RunState}
    (h : (body.step ctx (some shared) state).Fails ctx e) :
    ((Pipe.share shared input body).step ctx scope state).Fails ctx e := by
  obtain ⟨shared', input', hsignal, hpipe⟩ :=
    share_passes input scope h.running
  refine h.imp hsignal.trans fun ⟨hskip, hq⟩ => ⟨hsignal.trans hskip, ?_⟩
  rw [hpipe]
  exact hq.share_body shared' input'

variable (hbody : Blocked ctx shared body) (hclean : shared.fault = none)

include hbody

/-- A scope that has noted a failure, which its body is about to report. -/
theorem Blocked.noted (e : ExecError) (input : Pipe) :
    Failing ctx e (.share { shared with fault := some e } input body) :=
  .of_fails fun _ state => share_fails (hbody.reports e state)

include hclean

/-- What a scope does whose body waits: it reads on. -/
theorem Blocked.reads (input : Pipe) (scope : Option SharedRows) (state : RunState) :
    ∃ events state', events.any Event.isRelease = false ∧
      (Pipe.share shared input body).step ctx scope state =
        shareRead shared body events (input.step ctx scope state') := by
  obtain ⟨hsignal, hpipe, hevents⟩ := hbody.again state
  refine ⟨_, (body.step ctx (some shared) state).state, hevents, ?_⟩
  rw [share_reads hsignal hevents, Pipe.clear_of_clean hclean, hpipe]

/-- A scope with an input that fails for sure, and a body that waits for it. -/
theorem Failing.share_input {input : Pipe} (h : Failing ctx e input) :
    Failing ctx e (.share shared input body) := by
  induction h with
  | intro h hq ih =>
    refine .of_fails fun scope state => ?_
    obtain ⟨events, state', -, hstep⟩ := hbody.reads hclean _ scope state
    rw [hstep]
    unfold shareRead
    rcases h scope state' with hfail | hskip
    · rw [hfail]
      exact .inr ⟨rfl, hbody.noted e _⟩
    · rw [hskip]
      exact .inr ⟨rfl, ih scope state' hskip⟩

/-- A scope that reads on and meets a failure. -/
theorem shareRead_fails {s : Step} (h : s.Fails ctx e) (events : List Event) :
    (shareRead shared body events s).Fails ctx e := by
  unfold shareRead
  rcases h with hfail | ⟨hskip, hq⟩
  · rw [hfail]
    exact .inr ⟨rfl, hbody.noted e _⟩
  · rw [hskip]
    exact .inr ⟨rfl, hq.share_input hbody hclean⟩

/-- A scope waits for the scope around it if its body waits for it and its input waits. -/
theorem Blocked.share (hinput : Blocked ctx outer input) :
    Blocked ctx outer (.share shared input body) where
  again state := by
    obtain ⟨events, state', hevents, hstep⟩ := hbody.reads hclean input (some outer) state
    obtain ⟨hsignal, hpipe, hnone⟩ := hinput.again state'
    rw [hstep]
    unfold shareRead
    rw [hsignal, hpipe]
    refine ⟨rfl, rfl, ?_⟩
    dsimp only
    rw [List.any_append, hevents, hnone]
    rfl
  reports e state := by
    obtain ⟨events, state', -, hstep⟩ :=
      hbody.reads hclean input (some { outer with fault := some e }) state
    rw [hstep]
    exact shareRead_fails hbody hclean (hinput.reports e state') events

end Blocked

end TripleQuery
