import TripleQuery.Exec.Query
import TripleQuery.Proofs.Pipe.Runs

/-!
# Answers

What someone gets who drains a pipeline, or collects the rows of a query, is decided by the flow
that the pipeline comes to. A certain number of steps is enough for the answer; whoever allows for
fewer gets no answer, and no amount of fuel gets a different one.
-/

namespace TripleQuery

variable {ctx : Context} {known : Nat} {p : Pipe} {f : Flow}

/-! ## Draining -/

/-- A pipeline that is drained by anyone who has not cancelled comes to the outcome, with enough
fuel, and else to none. -/
def Pipe.Drains (ctx : Context) (p : Pipe) (o : Outcome (List Binding)) : Prop :=
  ∃ n, ∀ fuel state log, state.cancelled = false →
    (p.drain ctx fuel state log).outcome = if n ≤ fuel then o else .stalled

theorem outcome_push (rows : Array Binding) (b : Binding) (f : Flow) :
    (Flow.ofRows (rows.push b).toList ++ f).outcome =
      (Flow.ofRows rows.toList ++ .row b f).outcome := by
  rw [Array.toList_push, Flow.ofRows_append, Flow.append_assoc]
  rfl

theorem outcome_fail (rows : List Binding) (e : ExecError) :
    (Flow.ofRows rows ++ .fail e).outcome = .failed e := by
  unfold Flow.outcome
  rw [Flow.fault?_ofRows_append]
  rfl

/-- Draining after some rows. -/
theorem Runs.drain_go (h : Runs ctx none known p f) :
    ∃ n, ∀ fuel state log rows, state.cancelled = false →
      (Pipe.drain.go ctx fuel p state log rows).outcome =
        if n ≤ fuel then (Flow.ofRows rows.toList ++ f).outcome else .stalled := by
  induction h with
  | @yield known p q b f h hq ih =>
    obtain ⟨n, hn⟩ := ih
    refine ⟨n + 1, fun fuel state log rows hs => ?_⟩
    cases fuel with
    | zero => rfl
    | succ fuel =>
      obtain ⟨hsignal, hpipe, hrunning⟩ := h none state rfl hs
      rw [Pipe.drain.go]
      simp only [hsignal, hpipe, Nat.add_le_add_iff_right]
      rw [hn _ _ _ _ hrunning, outcome_push]
  | @skip known p q f h hq ih =>
    obtain ⟨n, hn⟩ := ih
    refine ⟨n + 1, fun fuel state log rows hs => ?_⟩
    cases fuel with
    | zero => rfl
    | succ fuel =>
      obtain ⟨hsignal, hpipe, hrunning⟩ := h none state rfl hs
      rw [Pipe.drain.go]
      simp only [hsignal, hpipe, Nat.add_le_add_iff_right]
      exact hn _ _ _ _ hrunning
  | @done known p q h =>
    refine ⟨1, fun fuel state log rows hs => ?_⟩
    cases fuel with
    | zero => rfl
    | succ fuel =>
      obtain ⟨hsignal, hpipe, hrunning⟩ := h none state rfl hs
      rw [Pipe.drain.go, if_pos (Nat.le_add_left 1 fuel), Flow.append_done, Flow.outcome_ofRows]
      simp only [hsignal]
  | @fail known p q e h =>
    refine ⟨1, fun fuel state log rows hs => ?_⟩
    cases fuel with
    | zero => rfl
    | succ fuel =>
      obtain ⟨hsignal, hpipe, hrunning⟩ := h none state rfl hs
      rw [Pipe.drain.go, if_pos (Nat.le_add_left 1 fuel), outcome_fail]
      simp only [hsignal]
  | wait hall => cases hall
  | doom hall => cases hall

/-- **Draining.** A pipeline is drained to the outcome of its flow. -/
theorem Runs.drains (h : Runs ctx none known p f) : p.Drains ctx f.outcome := by
  obtain ⟨n, hn⟩ := h.drain_go
  exact ⟨n, fun fuel state log hs => hn fuel state log #[] hs⟩

/-- A pipeline is drained to one outcome only. -/
theorem Pipe.Drains.unique {o o' : Outcome (List Binding)} (h : p.Drains ctx o)
    (h' : p.Drains ctx o') : o = o' := by
  obtain ⟨n, hn⟩ := h
  obtain ⟨n', hn'⟩ := h'
  have hfuel := (hn (n + n') .initial #[] rfl).symm.trans (hn' (n + n') .initial #[] rfl)
  rwa [if_pos (Nat.le_add_right n n'), if_pos (Nat.le_add_left n' n)] at hfuel

/-- An answer that someone has got is the outcome. -/
theorem Pipe.Drains.eq_of_value {o : Outcome (List Binding)} (h : p.Drains ctx o) {fuel : Nat}
    {state : RunState} {log : Array Event} (hs : state.cancelled = false) {rows : List Binding}
    (hv : (p.drain ctx fuel state log).outcome = .value rows) : o = .value rows := by
  obtain ⟨n, hn⟩ := h
  rw [hn fuel state log hs] at hv
  by_cases hfuel : n ≤ fuel
  · rwa [if_pos hfuel] at hv
  · rw [if_neg hfuel] at hv
    cases hv

/-! ## Collecting -/

/-- What someone gets to know who asks for one row. -/
def Flow.head : Flow → Outcome (Option Binding)
  | done => .value none
  | fail e => .failed e
  | row b _ => .value (some b)

/-- Asking for a row. -/
theorem Runs.next (h : Runs ctx none known p f) : ∃ n q,
    (∀ b rest, f = .row b rest → Runs ctx none known q rest) ∧
      ∀ fuel state log, state.cancelled = false →
        (p.next ctx fuel state log).outcome = (if n ≤ fuel then f.head else .stalled) ∧
          (n ≤ fuel → (p.next ctx fuel state log).subject = q ∧
            (p.next ctx fuel state log).state.cancelled = false) := by
  induction h with
  | @yield known p q b f h hq ih =>
    refine ⟨1, q, fun b' rest heq => ?_, fun fuel state log hs => ?_⟩
    · cases heq
      exact hq
    · cases fuel with
      | zero => exact ⟨rfl, fun hle => absurd hle (Nat.not_succ_le_zero 0)⟩
      | succ fuel =>
        obtain ⟨hsignal, hpipe, hrunning⟩ := h none state rfl hs
        rw [Pipe.next, if_pos (Nat.le_add_left 1 fuel)]
        simp only [hsignal, hpipe]
        exact ⟨rfl, fun _ => ⟨trivial, hrunning⟩⟩
  | @skip known p q f h hq ih =>
    obtain ⟨n, last, hlast, hn⟩ := ih
    refine ⟨n + 1, last, hlast, fun fuel state log hs => ?_⟩
    cases fuel with
    | zero => exact ⟨rfl, fun hle => absurd hle (Nat.not_succ_le_zero n)⟩
    | succ fuel =>
      obtain ⟨hsignal, hpipe, hrunning⟩ := h none state rfl hs
      rw [Pipe.next]
      simp only [hsignal, hpipe, Nat.add_le_add_iff_right]
      exact hn fuel _ _ hrunning
  | @done known p q h =>
    refine ⟨1, q, fun b rest heq => (nomatch heq), fun fuel state log hs => ?_⟩
    cases fuel with
    | zero => exact ⟨rfl, fun hle => absurd hle (Nat.not_succ_le_zero 0)⟩
    | succ fuel =>
      obtain ⟨hsignal, hpipe, hrunning⟩ := h none state rfl hs
      rw [Pipe.next, if_pos (Nat.le_add_left 1 fuel)]
      simp only [hsignal, hpipe]
      exact ⟨rfl, fun _ => ⟨trivial, hrunning⟩⟩
  | @fail known p q e h =>
    refine ⟨1, q, fun b rest heq => (nomatch heq), fun fuel state log hs => ?_⟩
    cases fuel with
    | zero => exact ⟨rfl, fun hle => absurd hle (Nat.not_succ_le_zero 0)⟩
    | succ fuel =>
      obtain ⟨hsignal, hpipe, hrunning⟩ := h none state rfl hs
      rw [Pipe.next, if_pos (Nat.le_add_left 1 fuel)]
      simp only [hsignal, hpipe]
      exact ⟨rfl, fun _ => ⟨trivial, hrunning⟩⟩
  | wait hall => cases hall
  | doom hall => cases hall

@[simp] theorem RunState.recordProduced_cancelled (s : RunState) (c : Config) (n : UInt64) :
    (s.recordProduced c n).cancelled = s.cancelled := by
  unfold recordProduced
  split <;> rfl

/-- Asking a query for a row. -/
theorem Runs.query_next (h : Runs ctx none known p f) : ∃ n q,
    (∀ b rest, f = .row b rest → Runs ctx none known q rest) ∧
      ∀ fuel state log, state.cancelled = false →
        (Query.next ctx fuel ⟨p, false⟩ state log).outcome =
            (if n ≤ fuel then f.head else .stalled) ∧
          (∀ b rest, f = .row b rest → n ≤ fuel →
            (Query.next ctx fuel ⟨p, false⟩ state log).subject = ⟨q, false⟩ ∧
              (Query.next ctx fuel ⟨p, false⟩ state log).state.cancelled = false) := by
  obtain ⟨n, q, hq, hn⟩ := h.next
  refine ⟨n, q, hq, fun fuel state log hs => ?_⟩
  obtain ⟨houtcome, hafter⟩ := hn fuel state log hs
  rw [Query.next, if_neg Bool.false_ne_true, if_neg (ne_true_of_eq_false hs)]
  by_cases hfuel : n ≤ fuel
  · obtain ⟨hsubject, hrunning⟩ := hafter hfuel
    rw [if_pos hfuel] at houtcome ⊢
    simp only [houtcome]
    cases f with
    | done => exact ⟨rfl, fun b rest heq => nomatch heq⟩
    | fail e => exact ⟨rfl, fun b rest heq => nomatch heq⟩
    | row b rest =>
      refine ⟨rfl, fun _ _ _ _ => ⟨congrArg (Query.mk · false) hsubject, ?_⟩⟩
      exact (RunState.recordProduced_cancelled ..).trans hrunning
  · rw [if_neg hfuel] at houtcome ⊢
    simp only [houtcome]
    exact ⟨trivial, fun _ _ _ hle => absurd hle hfuel⟩

/-- Collecting after some rows: fuel for each question, and enough questions. -/
theorem Runs.collect_go (h : Runs ctx none known p f) : ∃ n, ∀ fuel rounds state log rows,
    state.cancelled = false →
      (Query.collect.go ctx fuel rounds ⟨p, false⟩ state log rows).outcome =
        if n ≤ fuel ∧ f.rows.length < rounds then (Flow.ofRows rows.toList ++ f).outcome
        else .stalled := by
  induction f generalizing p with
  | done =>
    obtain ⟨n, q, -, hn⟩ := h.query_next
    refine ⟨n, fun fuel rounds state log rows hs => ?_⟩
    cases rounds with
    | zero => exact (if_neg fun hboth => Nat.not_lt_zero _ hboth.2).symm
    | succ rounds =>
      obtain ⟨houtcome, -⟩ := hn fuel state log hs
      rw [Query.collect.go, Flow.append_done, Flow.outcome_ofRows]
      by_cases hfuel : n ≤ fuel
      · rw [if_pos ⟨hfuel, Nat.succ_pos rounds⟩]
        simp only [houtcome, if_pos hfuel, Flow.head]
      · rw [if_neg fun hboth => hfuel hboth.1]
        simp only [houtcome, if_neg hfuel]
  | fail e =>
    obtain ⟨n, q, -, hn⟩ := h.query_next
    refine ⟨n, fun fuel rounds state log rows hs => ?_⟩
    cases rounds with
    | zero => exact (if_neg fun hboth => Nat.not_lt_zero _ hboth.2).symm
    | succ rounds =>
      obtain ⟨houtcome, -⟩ := hn fuel state log hs
      rw [Query.collect.go, outcome_fail]
      by_cases hfuel : n ≤ fuel
      · rw [if_pos ⟨hfuel, Nat.succ_pos rounds⟩]
        simp only [houtcome, if_pos hfuel, Flow.head]
      · rw [if_neg fun hboth => hfuel hboth.1]
        simp only [houtcome, if_neg hfuel]
  | row b rest ih =>
    obtain ⟨n, q, hq, hn⟩ := h.query_next
    obtain ⟨m, hm⟩ := ih (hq b rest rfl)
    refine ⟨max n m, fun fuel rounds state log rows hs => ?_⟩
    cases rounds with
    | zero => exact (if_neg fun hboth => Nat.not_lt_zero _ hboth.2).symm
    | succ rounds =>
      obtain ⟨houtcome, hafter⟩ := hn fuel state log hs
      have hcond : (max n m ≤ fuel ∧ (Flow.row b rest).rows.length < rounds + 1) ↔
          n ≤ fuel ∧ m ≤ fuel ∧ rest.rows.length < rounds := by
        rw [Flow.rows, List.length_cons]
        omega
      rw [Query.collect.go, if_congr hcond rfl rfl]
      by_cases hfuel : n ≤ fuel
      · obtain ⟨hsubject, hrunning⟩ := hafter b rest rfl hfuel
        simp only [houtcome, if_pos hfuel, Flow.head, hsubject]
        rw [hm _ _ _ _ _ hrunning, outcome_push, if_congr (and_iff_right hfuel) rfl rfl]
      · rw [if_neg fun hall => hfuel hall.1]
        simp only [houtcome, if_neg hfuel]

/-- An operator tree that is executed by anyone who has not cancelled comes to the outcome, with
enough fuel, and else to none. -/
def Executes (ctx : Context) (op : Op) (o : Outcome (List Binding)) : Prop :=
  ∃ n, ∀ fuel state, state.cancelled = false →
    execute ctx fuel op state = if n ≤ fuel then o else .stalled

/-- **Executing.** An operator tree is executed to the outcome of its flow. -/
theorem Runs.executes (h : Runs ctx none known p f) {op : Op}
    (hp : compile op ctx .identity = .ok p) : Executes ctx op f.outcome := by
  obtain ⟨n, hn⟩ := h.collect_go
  refine ⟨max n (f.rows.length + 1), fun fuel state hs => ?_⟩
  have hquery : (Query.ofOp op ctx).1 = .ok ⟨p, false⟩ := by
    unfold Query.ofOp
    rw [hp]
    rfl
  have hcond : max n (f.rows.length + 1) ≤ fuel ↔ n ≤ fuel ∧ f.rows.length < fuel := by omega
  unfold execute
  rw [hquery, if_congr hcond rfl rfl]
  exact hn fuel fuel state #[] #[] hs

/-- An operator tree is executed to one outcome only. -/
theorem Executes.unique {op : Op} {o o' : Outcome (List Binding)} (h : Executes ctx op o)
    (h' : Executes ctx op o') : o = o' := by
  obtain ⟨n, hn⟩ := h
  obtain ⟨n', hn'⟩ := h'
  have hfuel := (hn (n + n') .initial rfl).symm.trans (hn' (n + n') .initial rfl)
  rwa [if_pos (Nat.le_add_right n n'), if_pos (Nat.le_add_left n' n)] at hfuel

end TripleQuery
