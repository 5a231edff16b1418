import TripleQuery.Proofs.Answers.Faults
import TripleQuery.Proofs.Pipe.Counters

/-!
# What a query reports

Calls of a query come in any order, and it may be cancelled before any of them or by the dataset in
the middle of one (`Query.reports_once`). At most one call of a session reports a failure, an open
query that is cancelled reports it without a step of its pipeline, and after the end there is
nothing more to ask. The counter of rows given out is exact.
-/

namespace TripleQuery

/-! ## Responses -/

/-- The response is a failure. -/
def Response.failed : Response → Bool
  | .row (.failed _) | .rows (.failed _) | .number (.failed _) => true
  | _ => false

/-- The number of rows that a response gives or counts. -/
def Response.rowCount : Response → Nat
  | .row (.value given) => given.toList.length
  | .rows (.value given) => given.length
  | .number (.value n) => n
  | _ => 0

/-- The number of rows that some responses give or count together. -/
def Response.total (responses : List Response) : Nat :=
  responses.foldr (fun r n => r.rowCount + n) 0

/-- Calls that are not made of other calls. -/
def Call.isSingle : Call → Bool
  | next _ | first _ | close | cancel => true
  | collect _ | count _ => false

theorem Call.ends_of_failed {c : Call} {r : Response} (h : r.failed = true) : c.ends r = true := by
  unfold Response.failed at h
  split at h
  · cases c <;> rfl
  · cases c <;> rfl
  · cases c <;> rfl
  · cases h

/-! ## Closing -/

/-- The event is part of closing something. -/
def Event.isClosing : Event → Bool
  | closed _ | released => true
  | _ => false

theorem settle_closing {close : Unit → Pipe × List Event}
    (hc : ∀ e ∈ (close ()).2, e.isClosing = true) {events : List Event}
    (h : ∀ e ∈ events, e.isClosing = true) (shared : SharedRows) (input : Pipe) :
    ∀ e ∈ (shared.settle input close events).2.2, e.isClosing = true := by
  induction events generalizing shared input with
  | nil => exact h
  | cons e rest ih =>
    have hrest := ih fun e he => h e (List.mem_cons_of_mem _ he)
    rw [SharedRows.settle]
    split
    · split
      · exact fun e he => (List.mem_append.1 he).elim (hc e) (hrest _ _ e)
      · exact hrest _ _
    · exact List.forall_mem_cons.2 ⟨h e List.mem_cons_self, hrest _ _⟩

/-- Closing asks nothing and pulls nothing. -/
theorem Pipe.close_closing (p : Pipe) : ∀ e ∈ p.close.2, e.isClosing = true := by
  have hboth {es es' : List Event} (h : ∀ e ∈ es, e.isClosing = true)
      (h' : ∀ e ∈ es', e.isClosing = true) : ∀ e ∈ es ++ es', e.isClosing = true :=
    fun e he => (List.mem_append.1 he).elim (h e) (h' e)
  induction p with
  | bindings | script | concatEnd =>
    exact List.forall_mem_nil _
  | replay phase position =>
    rw [close]
    dsimp only
    split
    · exact List.forall_mem_nil _
    · exact List.forall_mem_singleton.2 rfl
  | tracked id calling input ih =>
    rw [close]
    exact List.forall_mem_cons.2 ⟨rfl, ih⟩
  | share shared input body ihi ihb =>
    rw [close]
    exact settle_closing ihi ihb shared input
  | scan _ _ _ _ _ ih | filter _ _ _ ih | optional _ _ _ _ _ ih | graphs _ _ _ _ _ _ ih
  | names _ _ _ _ _ ih | table _ _ _ _ ih | order _ _ _ _ ih | project _ _ _ ih
  | distinct _ _ _ _ ih | slice _ _ _ _ ih =>
    rw [close]
    exact ih
  | probing _ _ _ _ _ _ _ ihp ihi | within _ _ _ _ _ _ _ ihp ihi =>
    rw [close]
    exact hboth ihi ihp
  | join _ _ _ _ _ _ ihl ihr | concat _ _ _ _ ihl ihr =>
    rw [close]
    exact hboth ihl ihr

/-! ## Queries -/

section Queries

variable (ctx : Context) (fuel : Nat) (state : RunState) (log : Array Event) {q : Query}

namespace Query

theorem close_closing (q : Query) : ∀ e ∈ q.close.2, e.isClosing = true := by
  unfold close
  split
  · exact List.forall_mem_nil _
  · exact q.root.close_closing

/-- A closed query has no row, and nothing happens. -/
theorem next_of_closed (h : q.closed = true) :
    q.next ctx fuel state log = ⟨.value none, q, log, state⟩ := by
  rw [next, if_pos h]

/-- An open query whose run is cancelled is closed and fails. -/
theorem next_of_cancelled (h : q.closed = false) {state : RunState}
    (hc : state.cancelled = true) :
    q.next ctx fuel state log = q.answerClosing (.failed .cancelled) log state := by
  rw [next, if_neg (ne_true_of_eq_false h), if_pos hc]

/-- Once the run is cancelled a query has no row, and nothing is counted or asked. -/
theorem next_cancelled (q : Query) {state : RunState} (hc : state.cancelled = true) :
    (q.next ctx fuel state log).state = state ∧
      ((q.next ctx fuel state log).outcome = .value none ∨
        (q.next ctx fuel state log).outcome = .failed .cancelled) := by
  cases h : q.closed with
  | true =>
    rw [next_of_closed ctx fuel state log h]
    exact ⟨rfl, .inl rfl⟩
  | false =>
    rw [next_of_cancelled ctx fuel log h hc]
    exact ⟨rfl, .inr rfl⟩

/-- Asking for the first row is asking for the next one and closing. -/
theorem first_eq (q : Query) :
    (q.first ctx fuel state log).outcome = (q.next ctx fuel state log).outcome ∧
      (q.first ctx fuel state log).state = (q.next ctx fuel state log).state := by
  unfold first
  dsimp only
  cases ho : (q.next ctx fuel state log).outcome with
  | value given => exact ⟨rfl, rfl⟩
  | failed _ | stalled => exact ⟨ho, rfl⟩

/-- Counting the rows fails if collecting them does, and counts what that gives. -/
theorem count_eq (q : Query) :
    (Response.number (q.count ctx fuel state log).outcome).failed =
        (Response.rows (q.collect ctx fuel state log).outcome).failed ∧
      (Response.number (q.count ctx fuel state log).outcome).rowCount =
        (Response.rows (q.collect ctx fuel state log).outcome).rowCount := by
  unfold count
  dsimp only
  cases (q.collect ctx fuel state log).outcome <;> exact ⟨rfl, rfl⟩

theorem collect_of_closed (h : q.closed = true) :
    (q.collect ctx fuel state log).subject = q ∧
      (Response.rows (q.collect ctx fuel state log).outcome).failed = false := by
  unfold collect
  cases fuel with
  | zero => exact ⟨rfl, rfl⟩
  | succ fuel =>
    rw [collect.go, next_of_closed ctx _ state log h]
    exact ⟨rfl, rfl⟩

theorem collect_cancelled (q : Query) {state : RunState} (hc : state.cancelled = true) :
    (q.collect ctx fuel state log).state = state ∧
      (Response.rows (q.collect ctx fuel state log).outcome).rowCount = 0 := by
  unfold collect
  cases fuel with
  | zero => exact ⟨rfl, rfl⟩
  | succ fuel =>
    obtain ⟨hstate, hnone | hfailed⟩ := q.next_cancelled ctx (fuel + 1) log hc
    · simp only [collect.go, hnone, hstate]
      exact ⟨trivial, rfl⟩
    · simp only [collect.go, hfailed, hstate]
      exact ⟨trivial, rfl⟩

end Query

end Queries

/-! ## Counters -/

/-- Some rows are counted as given out between two states, and nothing unless counting is on. -/
structure RunState.Gives (cfg : Config) (n : Nat) (state state' : RunState) : Prop where
  produced : cfg.collectStats = true →
    state'.stats.produced = state.stats.produced + UInt64.ofNat n
  off : cfg.collectStats = false → state'.stats = state.stats

namespace RunState

variable {cfg : Config} {n m : Nat} {state state' state'' : RunState}

theorem Advances.gives (h : state.Advances cfg state') : state.Gives cfg 0 state' where
  produced _ := h.produced.trans (UInt64.add_zero _).symm
  off := h.stats

theorem Gives.trans (h : state.Gives cfg n state') (h' : state'.Gives cfg m state'') :
    state.Gives cfg (n + m) state'' where
  produced hon := by
    rw [h'.produced hon, h.produced hon, UInt64.ofNat_add, UInt64.add_assoc]
  off hoff := (h'.off hoff).trans (h.off hoff)

/-- The driver counts a row. -/
theorem gives_one (state : RunState) (cfg : Config) :
    state.Gives cfg 1 (state.recordProduced cfg 1) where
  produced hon := by
    rw [recordProduced, if_pos hon]
    rfl
  off hoff := by rw [recordProduced, if_neg (ne_true_of_eq_false hoff)]

end RunState

section Counters

variable (ctx : Context)

theorem Pipe.next_advances (fuel : Nat) (p : Pipe) (state : RunState) (log : Array Event) :
    state.Advances ctx.config (p.next ctx fuel state log).state := by
  induction fuel generalizing p state log with
  | zero => exact .refl state
  | succ fuel ih =>
    have hstep := p.step_advances ctx none state
    rw [next]
    cases (p.step ctx none state).signal with
    | skip => exact hstep.trans (ih _ _ _)
    | yield _ | done | fail _ | await => exact hstep

namespace Query

theorem next_gives (fuel : Nat) (q : Query) (state : RunState) (log : Array Event) :
    state.Gives ctx.config (Response.row (q.next ctx fuel state log).outcome).rowCount
      (q.next ctx fuel state log).state := by
  have hnone : state.Gives ctx.config 0 state := (RunState.Advances.refl state).gives
  have hroot := (q.root.next_advances ctx fuel state log).gives
  unfold next
  split
  · exact hnone
  · split
    · exact hnone
    · dsimp only
      cases (q.root.next ctx fuel state log).outcome with
      | value row =>
        cases row with
        | some row =>
          have hone := hroot.trans (RunState.gives_one _ ctx.config)
          rwa [Nat.zero_add] at hone
        | none => exact hroot
      | failed e => exact hroot
      | stalled => exact hroot

theorem first_gives (fuel : Nat) (q : Query) (state : RunState) (log : Array Event) :
    state.Gives ctx.config (Response.row (q.first ctx fuel state log).outcome).rowCount
      (q.first ctx fuel state log).state := by
  obtain ⟨houtcome, hstate⟩ := q.first_eq ctx fuel state log
  rw [houtcome, hstate]
  exact next_gives ctx fuel q state log

theorem collect_go_gives (fuel rounds : Nat) (q : Query) (state : RunState) (log : Array Event)
    (rows : Array Binding) :
    ∃ n, state.Gives ctx.config n (collect.go ctx fuel rounds q state log rows).state := by
  induction rounds generalizing q state log rows with
  | zero => exact ⟨0, (RunState.Advances.refl state).gives⟩
  | succ rounds ih =>
    have hnext := next_gives ctx fuel q state log
    rw [collect.go]
    split
    · obtain ⟨n, hn⟩ := ih (q.next ctx fuel state log).subject
        (q.next ctx fuel state log).state (q.next ctx fuel state log).log _
      exact ⟨_, hnext.trans hn⟩
    all_goals exact ⟨_, hnext⟩

end Query

/-- Calls count the rows they give out. -/
theorem Session.call_gives (s : Session) (c : Call) :
    ∃ n, s.state.Gives ctx.config n (s.call ctx c).2.state ∧
      (c.isSingle = true → n = (s.call ctx c).1.rowCount) := by
  cases c with
  | next fuel => exact ⟨_, Query.next_gives ctx fuel s.query s.state s.log, fun _ => rfl⟩
  | first fuel => exact ⟨_, Query.first_gives ctx fuel s.query s.state s.log, fun _ => rfl⟩
  | collect fuel | count fuel =>
    obtain ⟨n, hn⟩ := Query.collect_go_gives ctx fuel fuel s.query s.state s.log #[]
    exact ⟨n, hn, nofun⟩
  | close => exact ⟨0, (RunState.Advances.refl s.state).gives, fun _ => rfl⟩
  | cancel => exact ⟨0, ⟨fun _ => (UInt64.add_zero _).symm, fun _ => rfl⟩, fun _ => rfl⟩

/-- Sessions count the rows they give out. -/
theorem Session.run_gives (s : Session) (calls : List Call) :
    ∃ n, s.state.Gives ctx.config n (s.run ctx calls).2.state ∧
      ((∀ c ∈ calls, c.isSingle = true) → n = Response.total (s.run ctx calls).1) := by
  induction calls generalizing s with
  | nil => exact ⟨0, (RunState.Advances.refl s.state).gives, fun _ => rfl⟩
  | cons c calls ih =>
    obtain ⟨n, hn, hcount⟩ := call_gives ctx s c
    obtain ⟨m, hm, hmore⟩ := ih (s.call ctx c).2
    refine ⟨n + m, hn.trans hm, fun hall => ?_⟩
    obtain ⟨hsingle, hrest⟩ := List.forall_mem_cons.1 hall
    rw [hcount hsingle, hmore hrest]
    rfl

end Counters

/-! ## Sessions -/

namespace Session

variable (ctx : Context) {s : Session}

/-- After the end no call fails, and the query stays closed. -/
theorem call_of_closed (h : s.query.closed = true) (c : Call) :
    (s.call ctx c).1.failed = false ∧ (s.call ctx c).2.query.closed = true := by
  cases c with
  | next fuel =>
    rw [call, Query.next_of_closed ctx fuel s.state s.log h]
    exact ⟨rfl, h⟩
  | first fuel =>
    rw [call, Query.first, Query.next_of_closed ctx fuel s.state s.log h]
    exact ⟨rfl, Query.close_closed⟩
  | collect fuel =>
    obtain ⟨hsubject, hfine⟩ := Query.collect_of_closed ctx fuel s.state s.log h
    exact ⟨hfine, (congrArg Query.closed hsubject).trans h⟩
  | count fuel =>
    obtain ⟨hsubject, hfine⟩ := Query.collect_of_closed ctx fuel s.state s.log h
    obtain ⟨hsame, -⟩ := s.query.count_eq ctx fuel s.state s.log
    exact ⟨hsame.trans hfine, (congrArg Query.closed hsubject).trans h⟩
  | close => exact ⟨rfl, Query.close_closed⟩
  | cancel => exact ⟨rfl, h⟩

theorem run_of_closed (h : s.query.closed = true) (calls : List Call) :
    (s.run ctx calls).1.countP Response.failed = 0 ∧
      (s.run ctx calls).2.query.closed = true := by
  induction calls generalizing s with
  | nil => exact ⟨rfl, h⟩
  | cons c calls ih =>
    obtain ⟨hfine, hclosed⟩ := call_of_closed ctx h c
    obtain ⟨hrest, hend⟩ := ih hclosed
    refine ⟨?_, hend⟩
    show ((s.call ctx c).1 :: ((s.call ctx c).2.run ctx calls).1).countP Response.failed = 0
    rw [List.countP_cons_of_neg (ne_true_of_eq_false hfine), hrest]

/-- At most one response of a session is a failure, since the query is closed with it. -/
theorem run_fails_once (s : Session) (calls : List Call) :
    (s.run ctx calls).1.countP Response.failed ≤ 1 := by
  induction calls generalizing s with
  | nil => exact Nat.zero_le 1
  | cons c calls ih =>
    show ((s.call ctx c).1 :: ((s.call ctx c).2.run ctx calls).1).countP Response.failed ≤ 1
    by_cases hfailed : (s.call ctx c).1.failed = true
    · obtain ⟨hrest, -⟩ := run_of_closed ctx (call_ends (Call.ends_of_failed hfailed)) calls
      exact Nat.le_of_eq ((List.countP_cons_of_pos hfailed).trans (congrArg (· + 1) hrest))
    · rw [List.countP_cons_of_neg hfailed]
      exact ih (s.call ctx c).2

/-- Once the run is cancelled no call gives a row. -/
theorem call_cancelled (hc : s.state.cancelled = true) (c : Call) :
    (s.call ctx c).1.rowCount = 0 ∧ (s.call ctx c).2.state.cancelled = true := by
  have hrow {o : Outcome (Option Binding)} (h : o = .value none ∨ o = .failed .cancelled) :
      (Response.row o).rowCount = 0 := by
    rcases h with rfl | rfl <;> rfl
  have hstays {state : RunState} (h : state = s.state) : state.cancelled = true :=
    (congrArg RunState.cancelled h).trans hc
  cases c with
  | next fuel =>
    obtain ⟨hstate, houtcome⟩ := s.query.next_cancelled ctx fuel s.log hc
    exact ⟨hrow houtcome, hstays hstate⟩
  | first fuel =>
    obtain ⟨hstate, houtcome⟩ := s.query.next_cancelled ctx fuel s.log hc
    obtain ⟨hsame, hsame'⟩ := s.query.first_eq ctx fuel s.state s.log
    rw [← hsame] at houtcome
    exact ⟨hrow houtcome, hstays (hsame'.trans hstate)⟩
  | collect fuel =>
    obtain ⟨hstate, hcount⟩ := s.query.collect_cancelled ctx fuel s.log hc
    exact ⟨hcount, hstays hstate⟩
  | count fuel =>
    obtain ⟨hstate, hcount⟩ := s.query.collect_cancelled ctx fuel s.log hc
    obtain ⟨-, hsame⟩ := s.query.count_eq ctx fuel s.state s.log
    exact ⟨hsame.trans hcount, hstays hstate⟩
  | close => exact ⟨rfl, hc⟩
  | cancel => exact ⟨rfl, rfl⟩

theorem run_cancelled (hc : s.state.cancelled = true) (calls : List Call) :
    ∀ r ∈ (s.run ctx calls).1, r.rowCount = 0 := by
  induction calls generalizing s with
  | nil => exact List.forall_mem_nil _
  | cons c calls ih =>
    obtain ⟨hcount, hstays⟩ := call_cancelled ctx hc c
    exact List.forall_mem_cons.2 ⟨hcount, ih hstays⟩

end Session

/-! ## Reports -/

/-- **One failure, no row after a cancellation, exact counts.** An operator without extensions
compiles over any dataset. Take any calls of its query.

At most one of them reports a failure. At any point, if the query is open and the run is cancelled,
then asking for a row fails for this reason and does just what closing does, which asks nothing and
pulls nothing; and no later call gives a row. After a call that ends the query, asking for a row
finds none and does nothing. As long as rows are asked for one by one, the counter of rows given out
has grown by their number, at 64 bits; if counting is off, no counter changes at all. -/
theorem Query.reports_once {op : Op} (hop : op.Plain) (ctx : Context) :
    ∃ q, Query.ofOp op ctx = (.ok q, []) ∧ ∀ state log calls,
      let responses := ((Session.mk q state log).run ctx calls).1
      let s := ((Session.mk q state log).run ctx calls).2
      responses.countP Response.failed ≤ 1 ∧
      (s.state.cancelled = true →
        (s.query.closed = false → ∀ fuel,
          s.call ctx (.next fuel) = (.row (.failed .cancelled), (s.call ctx .close).2) ∧
            (s.call ctx .close).2.log = s.log ++ s.query.close.2 ∧
            ∀ e ∈ s.query.close.2, e.isClosing = true) ∧
        ∀ more, ∀ r ∈ (s.run ctx more).1, r.rowCount = 0) ∧
      (∀ c : Call, c.ends (s.call ctx c).1 = true → ∀ more fuel,
        let ended := ((s.call ctx c).2.run ctx more).2
        ended.call ctx (.next fuel) = (.row (.value none), ended)) ∧
      (ctx.config.collectStats = true → (∀ c ∈ calls, c.isSingle = true) →
        s.state.stats.produced =
          state.stats.produced + UInt64.ofNat (Response.total responses)) ∧
      (ctx.config.collectStats = false → s.state.stats = state.stats) := by
  refine ⟨_, ofOp_plain hop ctx, fun state log calls => ?_⟩
  intro responses s
  obtain ⟨n, hgives, hcount⟩ := Session.run_gives ctx
    ⟨⟨op.pipe ctx ctx.activeGraph .identity, false⟩, state, log⟩ calls
  refine ⟨Session.run_fails_once ctx _ calls, fun hc => ⟨fun hopen fuel => ?_,
    Session.run_cancelled ctx hc⟩, fun c hends more fuel => ?_, fun hon hsingle => ?_, hgives.off⟩
  · refine ⟨?_, rfl, s.query.close_closing⟩
    rw [Session.call, next_of_cancelled ctx fuel s.log hopen hc]
    rfl
  · intro ended
    obtain ⟨-, hclosed⟩ := Session.run_of_closed ctx (Session.call_ends hends) more
    rw [Session.call, next_of_closed ctx fuel ended.state ended.log hclosed]
    rfl
  · rw [← hcount hsingle]
    exact hgives.produced hon

namespace Reporting

/-- A context in which a scan is cancelled between its two quads. -/
def context : Context where
  dataset :=
    { scan := fun _ _ => .ok [.quad ⟨.iri "a", .iri "b", .iri "c", none⟩, .cancel,
        .quad ⟨.iri "a", .iri "b", .iri "d", none⟩]
      graphNames := fun _ => .ok [] }
  extensions := .empty
  config := { Config.standard with collectStats := true }
  activeGraph := .default

/-- What the subject is related to. -/
def objects : Op := .project [⟨"y"⟩] (.bgp [⟨.term (.iri "a"), .term (.iri "b"), .var ⟨"y"⟩⟩])

end Reporting

open Reporting in
theorem Query.reports_once_cancelled :
    objects.Plain ∧ ∃ q, ofOp objects context = (.ok q, []) ∧
      let s := ((Session.mk q .initial #[]).run context [.next 20, .next 20]).2
      s.query.closed = false ∧ s.state.cancelled = true ∧ s.state.stats.produced = 2 ∧
        s.call context (.next 20) = (.row (.failed .cancelled), (s.call context .close).2) := by
  have hplain : objects.Plain := trivial
  obtain ⟨q, hq, hreports⟩ := reports_once hplain context
  refine ⟨hplain, q, hq, ?_⟩
  obtain ⟨-, hcancelled, -, hproduced, -⟩ := hreports .initial #[] [.next 20, .next 20]
  cases hq
  refine ⟨rfl, rfl, ?_, ((hcancelled rfl).1 rfl 20).1⟩
  exact hproduced rfl (by decide)

end TripleQuery
