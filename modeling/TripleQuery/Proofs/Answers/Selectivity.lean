import TripleQuery.Proofs.Answers.Limits
import TripleQuery.Proofs.Pipe.Sifting

/-!
# Selectivity

How selective the scans of a dataset are makes no difference to what an operator tree is executed to
(`Op.selectivity_irrelevant`): every quad that is listed is checked against the pattern again, so
surplus quads cost steps and nothing else. A dataset may list other surplus each time it is asked,
so the number of steps depends on where a run starts.
-/

namespace TripleQuery

/-! ## Datasets -/

namespace QuadStore

variable (store : QuadStore)

theorem wants_and_carelesslySelects (r : ScanRequest) (q : Quad) :
    (r.wants q && carelesslySelects r q) = r.selects q := by
  unfold ScanRequest.wants carelesslySelects ScanRequest.selects ScanRequest.targets
  cases r.target with
  | default | named | anyNamed => simp only [Bool.true_and, Bool.and_comm]

/-- A careless dataset lists too much, but nothing wrong. -/
theorem carelessDataset_overlists : store.carelessDataset.Overlists store where
  scan _ r := by
    refine ⟨store.quads.filter (carelesslySelects r), rfl, ?_⟩
    rw [List.filter_filter]
    exact List.filter_congr fun q _ => wants_and_carelesslySelects r q
  graphNames _ := rfl

/-- What a store selects is wanted. -/
theorem dataset_overlists : store.dataset.Overlists store where
  scan _ r := by
    refine ⟨store.select r, rfl, List.filter_eq_self.2 fun q hq => ?_⟩
    have hselects := (mem_select.1 hq).2
    rw [← wants_and_carelesslySelects, Bool.and_eq_true] at hselects
    exact hselects.1
  graphNames _ := rfl

end QuadStore

/-! ## Asking for a row -/

/-- Asked for a row in the state, the pipeline gives the answer that one without surplus gave, once
it has enough fuel, and what is left of it is what was left of that one but for surplus. -/
def Pipe.Echoes (ctx : Context) (p : Pipe) (state : RunState)
    (a : Answer Pipe (Option Binding)) : Prop :=
  ∃ n q last, q.Calm ∧ last.cancelled = false ∧ a.subject = q.sift ∧ ∀ fuel log,
    (p.next ctx fuel state log).outcome = (if n ≤ fuel then a.outcome else .stalled) ∧
      (n ≤ fuel → (p.next ctx fuel state log).subject = q ∧
        (p.next ctx fuel state log).state = last)

section Next

variable {ctx : Context} {store : QuadStore} {p : Pipe} {state : RunState}
  {a : Answer Pipe (Option Binding)}

/-- A step that gives nothing only takes fuel. -/
theorem Pipe.Echoes.skip (hskip : (p.step ctx none state).signal = .skip)
    (h : (p.step ctx none state).pipe.Echoes ctx (p.step ctx none state).state a) :
    p.Echoes ctx state a := by
  obtain ⟨n, q, last, hq, hlast, hsubject, hn⟩ := h
  refine ⟨n + 1, q, last, hq, hlast, hsubject, fun fuel log => ?_⟩
  cases fuel with
  | zero => exact ⟨rfl, fun hle => absurd hle (Nat.not_succ_le_zero n)⟩
  | succ fuel =>
    rw [Pipe.next]
    simp only [hskip, Nat.add_le_add_iff_right]
    exact hn fuel _

/-- A step that gives an answer is the last one. -/
theorem Pipe.Echoes.last (hcalm : (p.step ctx none state).pipe.Calm)
    (hrun : (p.step ctx none state).state.cancelled = false)
    (hsubject : a.subject = (p.step ctx none state).pipe.sift)
    (h : ∀ fuel log, (p.next ctx (fuel + 1) state log).outcome = a.outcome ∧
      (p.next ctx (fuel + 1) state log).subject = (p.step ctx none state).pipe ∧
      (p.next ctx (fuel + 1) state log).state = (p.step ctx none state).state) :
    p.Echoes ctx state a := by
  refine ⟨1, _, _, hcalm, hrun, hsubject, fun fuel log => ?_⟩
  cases fuel with
  | zero => exact ⟨rfl, fun hle => absurd hle (Nat.not_succ_le_zero 0)⟩
  | succ fuel =>
    rw [if_pos (Nat.le_add_left 1 fuel)]
    exact (h fuel log).imp_right fun hafter _ => hafter

/-- **Asking over surplus.** If the pipeline without surplus answers over the store, the whole one
gives the same answer over the dataset that lists too much. -/
theorem Pipe.Calm.echoes (hd : ctx.dataset.Overlists store) (hp : p.Calm) {fuel : Nat}
    {state' : RunState} {log : Array Event} (hs' : state'.cancelled = false)
    (h : (p.sift.next (ctx.given store.dataset) fuel state' log).outcome ≠ .stalled)
    (hs : state.cancelled = false) :
    (p.sift.next (ctx.given store.dataset) fuel state' log).state.cancelled = false ∧
      p.Echoes ctx state (p.sift.next (ctx.given store.dataset) fuel state' log) := by
  induction fuel generalizing p state state' log with
  | zero => exact absurd rfl h
  | succ fuel ih =>
    -- surplus is read first, and then a step is taken on both sides
    induction hsurplus : p.surplus using Nat.strongRecOn generalizing p state with
    | ind m ihm =>
      cases hp.follows hd none hs with
      | waits q _ hwaits =>
        rw [Pipe.next, hwaits state' hs'] at h
        exact absurd rfl h
      | lags q last hstep hlast same hq _ hless =>
        have hnext : p.sift.next (ctx.given store.dataset) (fuel + 1) state' log =
            q.sift.next (ctx.given store.dataset) (fuel + 1) state' log := by
          rw [Pipe.next, Pipe.next, same state' hs']
        rw [hnext] at h ⊢
        obtain ⟨hrunning, hechoes⟩ := ihm q.surplus (hsurplus ▸ hless) hq h hlast rfl
        refine ⟨hrunning, .skip (by rw [hstep]; rfl) ?_⟩
        rw [hstep]
        exact hechoes
      | acts hact =>
        obtain ⟨hsignal, hpipe, -, hcalm, hrun, hrun', hacts⟩ := hact state' hs'
        rw [Pipe.next] at h ⊢
        cases hgiven : (p.step ctx none state).signal with
        | await => exact absurd hgiven hacts
        | skip =>
          rw [hgiven] at hsignal
          simp only [hsignal, hpipe] at h ⊢
          obtain ⟨hrunning, hechoes⟩ := ih hcalm hrun' h hrun
          exact ⟨hrunning, .skip hgiven hechoes⟩
        | _ =>
          rw [hgiven] at hsignal
          simp only [hsignal]
          refine ⟨hrun', .last hcalm hrun hpipe fun fuel log => ?_⟩
          rw [Pipe.next]
          simp only [hgiven, and_self]

end Next

/-! ## Collecting -/

/-- What collecting comes to once it has an answer to its next question. -/
theorem collect_go_open (ctx : Context) (fuel rounds : Nat) (p : Pipe) {state : RunState}
    (hs : state.cancelled = false) (log : Array Event) (rows : Array Binding) :
    (Query.collect.go ctx fuel (rounds + 1) ⟨p, false⟩ state log rows).outcome =
      match (p.next ctx fuel state log).outcome with
      | .value (some row) =>
        (Query.collect.go ctx fuel rounds ⟨(p.next ctx fuel state log).subject, false⟩
          ((p.next ctx fuel state log).state.recordProduced ctx.config 1)
          (p.next ctx fuel state log).log (rows.push row)).outcome
      | .value none => .value rows.toList
      | .failed e => .failed e
      | .stalled => .stalled := by
  rw [Query.collect.go, Query.next, if_neg Bool.false_ne_true, if_neg (ne_true_of_eq_false hs)]
  dsimp only
  generalize p.next ctx fuel state log = a
  obtain ⟨outcome, subject, log, state⟩ := a
  cases outcome with
  | value row => cases row <;> rfl
  | failed | stalled => rfl

/-- **Collecting over surplus.** What is collected over the store is collected over the dataset that
lists too much, given enough fuel and as many rounds. -/
theorem Pipe.Calm.collects {ctx : Context} {store : QuadStore} (hd : ctx.dataset.Overlists store)
    {o : Outcome (List Binding)} (ho : o ≠ .stalled) {fuel' : Nat} (rounds' : Nat) :
    ∀ {p : Pipe} {state state' : RunState} {log' : Array Event} {rows : Array Binding}, p.Calm →
      state.cancelled = false → state'.cancelled = false →
      (Query.collect.go (ctx.given store.dataset) fuel' rounds' ⟨p.sift, false⟩ state' log'
        rows).outcome = o →
      ∃ n k, ∀ fuel rounds log, (Query.collect.go ctx fuel rounds ⟨p, false⟩ state log
        rows).outcome = if n ≤ fuel ∧ k ≤ rounds then o else .stalled := by
  induction rounds' with
  | zero =>
    intro p state state' log' rows _ _ _ h
    exact absurd h.symm ho
  | succ rounds' ih =>
    intro p state state' log' rows hp hs hs' h
    rw [collect_go_open _ _ _ _ hs'] at h
    have hanswered : (p.sift.next (ctx.given store.dataset) fuel' state' log').outcome ≠
        .stalled := by
      intro hstalled
      rw [hstalled] at h
      exact ho h.symm
    obtain ⟨hrunning, n, q, last, hq, hlast, hsubject, hn⟩ := hp.echoes hd hs' hanswered hs
    generalize p.sift.next (ctx.given store.dataset) fuel' state' log' = a at *
    obtain ⟨outcome, subject, log', state'⟩ := a
    dsimp only at h hrunning hsubject hn
    subst hsubject
    have hstalls (fuel rounds : Nat) (log : Array Event) (hfuel : ¬ n ≤ fuel) :
        (Query.collect.go ctx fuel rounds ⟨p, false⟩ state log rows).outcome = .stalled := by
      cases rounds with
      | zero => rfl
      | succ rounds => rw [collect_go_open _ _ _ _ hs, (hn fuel log).1, if_neg hfuel]
    have hends (hend : ∀ fuel rounds log, n ≤ fuel → (Query.collect.go ctx fuel (rounds + 1)
        ⟨p, false⟩ state log rows).outcome = o) : ∃ n k, ∀ fuel rounds log, (Query.collect.go ctx
        fuel rounds ⟨p, false⟩ state log rows).outcome =
          if n ≤ fuel ∧ k ≤ rounds then o else .stalled := by
      refine ⟨n, 1, fun fuel rounds log => ?_⟩
      by_cases hfuel : n ≤ fuel
      · cases rounds with
        | zero => exact (if_neg fun hboth => Nat.not_succ_le_zero 0 hboth.2).symm
        | succ rounds =>
          rw [hend fuel rounds log hfuel, if_pos ⟨hfuel, Nat.le_add_left 1 rounds⟩]
      · rw [hstalls fuel rounds log hfuel, if_neg fun hboth => hfuel hboth.1]
    cases outcome with
    | stalled => exact absurd h.symm ho
    | failed e =>
      refine hends fun fuel rounds log hfuel => ?_
      rw [collect_go_open _ _ _ _ hs, (hn fuel log).1, if_pos hfuel]
      exact h
    | value given =>
      cases given with
      | none =>
        refine hends fun fuel rounds log hfuel => ?_
        rw [collect_go_open _ _ _ _ hs, (hn fuel log).1, if_pos hfuel]
        exact h
      | some row =>
        obtain ⟨m, k, hm⟩ := ih hq ((RunState.recordProduced_cancelled ..).trans hlast)
          ((RunState.recordProduced_cancelled ..).trans hrunning) h
        refine ⟨max n m, k + 1, fun fuel rounds log => ?_⟩
        by_cases hfuel : n ≤ fuel
        · cases rounds with
          | zero => exact (if_neg fun hboth => Nat.not_succ_le_zero k hboth.2).symm
          | succ rounds =>
            obtain ⟨hsubject, hstate⟩ := (hn fuel log).2 hfuel
            have hcond : (max n m ≤ fuel ∧ k + 1 ≤ rounds + 1) ↔ m ≤ fuel ∧ k ≤ rounds := by omega
            rw [collect_go_open _ _ _ _ hs, (hn fuel log).1, if_pos hfuel, hsubject, hstate,
              if_congr hcond rfl rfl]
            exact hm fuel rounds _
        · rw [hstalls fuel rounds log hfuel, if_neg (by omega)]

/-! ## Executing -/

section Execution

variable {op : Op} (hop : op.Plain) (ctx : Context) {store : QuadStore}
  (hd : ctx.dataset.Overlists store)

include hop hd in
/-- What an operator is executed to over the store it is executed to over the dataset that lists too
much. -/
theorem Executes.over {o : Outcome (List Binding)}
    (h : Executes (ctx.given store.dataset) op o) (ho : o ≠ .stalled) {state : RunState}
    (hs : state.cancelled = false) :
    ∃ n, ∀ fuel, execute ctx fuel op state = if n ≤ fuel then o else .stalled := by
  obtain ⟨m, hm⟩ := h
  obtain ⟨hsift, hcalm⟩ := op.pipe_fresh hop ctx ctx.activeGraph Seed.identity_fresh
  have hgiven : execute (ctx.given store.dataset) m op .initial = o := by
    rw [hm m .initial rfl, if_pos (Nat.le_refl m)]
  unfold execute at hgiven
  rw [Query.ofOp_given, Query.ofOp_plain hop, ← hsift] at hgiven
  obtain ⟨n, k, hn⟩ := hcalm.collects hd ho m hs rfl hgiven
  refine ⟨max n k, fun fuel => ?_⟩
  unfold execute
  rw [Query.ofOp_plain hop]
  exact (hn fuel fuel #[]).trans (if_congr (by omega) rfl rfl)

include hop hd in
/-- **Selectivity is irrelevant.** Take a store, and a dataset with its graph names that lists, each
time it is asked, the quads of the store that are asked for, in order and with any surplus in
between. An operator tree without extensions is executed over the store to some rows, or to the
error that a buffer has one row more than the limit. Over the dataset it is executed to the same,
wherever the run starts. -/
theorem Op.selectivity_irrelevant :
    ∃ o, Executes (ctx.given store.dataset) op o ∧
      ((∃ rows, o = .value rows) ∨ o = .failed (.tooLarge (ctx.maxRows + 1) ctx.maxRows)) ∧
      ∀ state, state.cancelled = false →
        ∃ n, ∀ fuel, execute ctx fuel op state = if n ≤ fuel then o else .stalled := by
  have hdata : (ctx.given store.dataset).dataset = store.dataset := rfl
  obtain ⟨p, hcompiled, hruns⟩ := compile_runs hop hdata none
  have hexecutes := hruns.executes hcompiled
  have happrox : Approx ctx.maxRows (op.flow store.source ctx.config ctx.activeGraph none)
      (op.solve store ctx.activeGraph [.empty]) :=
    op.flow_approx ctx.config hop ctx.activeGraph (approx_ofRows _ none)
  refine ⟨_, hexecutes, ?_, fun state hs => hexecutes.over hop ctx hd ?_ hs⟩
  · cases ho : (op.flow store.source ctx.config ctx.activeGraph none).outcome with
    | value rows => exact .inl ⟨rows, ho⟩
    | failed e =>
      obtain ⟨-, rfl, -⟩ := happrox.cut_of_outcome ho
      exact .inr ho
    | stalled =>
      unfold Flow.outcome at ho
      split at ho <;> cases ho
  · intro ho
    unfold Flow.outcome at ho
    split at ho <;> cases ho

end Execution

namespace Instance

/-- One edge in the default graph, and one in a named graph. -/
def namedEdges : QuadStore := edges.insert ⟨b, b, a, some (.iri "g")⟩

/-- A dataset over these edges that lists what is asked for the first time, and too much later. -/
def fickle : Dataset where
  scan k r := if k = 0 then namedEdges.dataset.scan k r else namedEdges.carelessDataset.scan k r
  graphNames := namedEdges.dataset.graphNames

/-- Where edges of named graphs come from. -/
def starts : Op := .quadPattern (.var ⟨"g"⟩) [⟨.var x, .term b, .term a⟩]

end Instance

open Instance in
theorem Op.selectivity_irrelevant_starts :
    fickle.Overlists namedEdges ∧
      execute (context namedEdges unlimited) 20 starts .initial =
        .value [.ofPairs [(⟨"g"⟩, .iri "g"), (x, b)]] ∧
      ∃ n, ∀ fuel, execute ⟨fickle, .empty, unlimited, .default⟩ fuel starts
        { RunState.initial with scans := 1 } =
          if n ≤ fuel then .value [.ofPairs [(⟨"g"⟩, .iri "g"), (x, b)]] else .stalled := by
  have hplain : starts.Plain := trivial
  have hd : fickle.Overlists namedEdges := by
    refine ⟨fun k r => ?_, fun _ => rfl⟩
    show ∃ quads : List Quad, (if k = 0 then _ else _) = _ ∧ _
    split
    · exact namedEdges.dataset_overlists.scan k r
    · exact namedEdges.carelessDataset_overlists.scan k r
  have hrun : execute (context namedEdges unlimited) 20 starts .initial =
      .value [.ofPairs [(⟨"g"⟩, .iri "g"), (x, b)]] := rfl
  obtain ⟨o, ho, -, hsame⟩ :=
    selectivity_irrelevant hplain ⟨fickle, .empty, unlimited, .default⟩ hd
  obtain rfl := ho.eq_of_execute rfl hrun nofun
  exact ⟨hd, hrun, hsame _ rfl⟩

end TripleQuery
