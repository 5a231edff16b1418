import TripleQuery.Proofs.Answers.Faults
import TripleQuery.Proofs.Answers.Refinement
import TripleQuery.Proofs.Flow.Limits

/-!
# Limits on buffers

A limit on buffers refuses or it makes no difference (`Op.limit_only_refuses`). Whatever a query
answers under a limit it answers under every limit that is no stricter. If it is refused, the error
tells by how much the buffer was too small, and the rows that it has given by then are the first
ones of the answer without a limit, which is there always.
-/

namespace TripleQuery

variable {ctx : Context} {known : Nat} {p : Pipe} {f : Flow}

/-! ## Asking for rows -/

/-- What someone gets who asks for rows, one after the other: those of the flow, the end or the
failure, and no more after that. -/
def Flow.responses : Flow → Nat → List Response
  | _, 0 => []
  | done, n + 1 => .row (.value none) :: done.responses n
  | fail e, n + 1 => .row (.failed e) :: done.responses n
  | row b rest, n + 1 => .row (.value (some b)) :: rest.responses n

theorem Flow.responses_done (fuels : List Nat) :
    done.responses fuels.length = fuels.map fun _ => .row (.value none) := by
  induction fuels with
  | nil => rfl
  | cons fuel fuels ih => exact congrArg (Response.row (.value none) :: ·) ih

/-- A query gives the flow to anyone who has not cancelled and asks for rows, with enough fuel each
time. -/
def Query.Responds (ctx : Context) (q : Query) (f : Flow) : Prop :=
  ∃ n, ∀ fuels : List Nat, (∀ fuel ∈ fuels, n ≤ fuel) → ∀ state log, state.cancelled = false →
    ((Session.mk q state log).ask ctx fuels).1 = f.responses fuels.length

/-- After its last row a query has nothing more to give. -/
theorem Runs.ask_last (h : Runs ctx none known p f) (hlast : ∀ b rest, f ≠ .row b rest) :
    Query.Responds ctx ⟨p, false⟩ f := by
  obtain ⟨n, q, -, hn⟩ := h.query_next
  refine ⟨n, fun fuels hfuels state log hs => ?_⟩
  cases fuels with
  | nil => rfl
  | cons fuel fuels =>
    obtain ⟨houtcome, -⟩ := hn fuel state log hs
    rw [if_pos (hfuels fuel List.mem_cons_self)] at houtcome
    let s : Session := ⟨⟨p, false⟩, state, log⟩
    have hclosed : (s.call ctx (.next fuel)).2.query.closed = true := by
      refine Query.next_closed ?_
      rw [houtcome]
      cases f with
      | done => exact .inl rfl
      | fail e => exact .inr ⟨e, rfl⟩
      | row b rest => exact absurd rfl (hlast b rest)
    have hmore := Session.ask_closed ctx hclosed fuels
    show Response.row (Query.next ctx fuel ⟨p, false⟩ state log).outcome ::
      ((s.call ctx (.next fuel)).2.ask ctx fuels).1 = f.responses (fuels.length + 1)
    rw [houtcome, hmore, ← Flow.responses_done]
    cases f with
    | done | fail e => rfl
    | row b rest => exact absurd rfl (hlast b rest)

/-- **Asking.** A query gives the flow of its pipeline, row by row. -/
theorem Runs.responds (h : Runs ctx none known p f) : Query.Responds ctx ⟨p, false⟩ f := by
  induction f generalizing p with
  | done => exact h.ask_last fun _ _ => nofun
  | fail e => exact h.ask_last fun _ _ => nofun
  | row b rest ih =>
    obtain ⟨n, q, hq, hn⟩ := h.query_next
    obtain ⟨m, hm⟩ := ih (hq b rest rfl)
    refine ⟨max n m, fun fuels hfuels state log hs => ?_⟩
    cases fuels with
    | nil => rfl
    | cons fuel fuels =>
      have hfuel : n ≤ fuel := Nat.le_trans (Nat.le_max_left n m) (hfuels fuel List.mem_cons_self)
      obtain ⟨houtcome, hafter⟩ := hn fuel state log hs
      obtain ⟨hsubject, hrunning⟩ := hafter b rest rfl hfuel
      rw [if_pos hfuel] at houtcome
      have hrest := hm fuels
        (fun fuel h => Nat.le_trans (Nat.le_max_right n m) (hfuels fuel (List.mem_cons_of_mem _ h)))
        (Query.next ctx fuel ⟨p, false⟩ state log).state
        (Query.next ctx fuel ⟨p, false⟩ state log).log hrunning
      rw [← hsubject] at hrest
      exact congrArg₂ List.cons (congrArg Response.row houtcome) hrest

/-! ## Outcomes -/

/-- What an execution has come to is the outcome. -/
theorem Executes.eq_of_execute {op : Op} {o o' : Outcome (List Binding)} (h : Executes ctx op o)
    {fuel : Nat} {state : RunState} (hs : state.cancelled = false)
    (ho : execute ctx fuel op state = o') (hend : o' ≠ .stalled) : o = o' := by
  obtain ⟨n, hn⟩ := h
  rw [hn fuel state hs] at ho
  by_cases hfuel : n ≤ fuel
  · rwa [if_pos hfuel] at ho
  · rw [if_neg hfuel] at ho
    exact absurd ho.symm hend

/-- A flow that fails because of a limit has given out the first of the rows. -/
theorem Approx.cut_of_outcome {m : Nat} {rows : List Binding} (h : Approx m f rows)
    {e : ExecError} (ho : f.outcome = .failed e) :
    0 < m ∧ e = .tooLarge (m + 1) m ∧ ∃ given, given <+: rows ∧ f = .ofRows given ++ .fail e := by
  have hfault : f.fault? = some e := by
    unfold Flow.outcome at ho
    cases hf : f.fault? with
    | none =>
      rw [hf] at ho
      cases ho
    | some e' =>
      rw [hf] at ho
      cases ho
      rfl
  clear ho
  induction h with
  | done => cases hfault
  | row b h ih =>
    obtain ⟨hpos, he, given, hgiven, hf⟩ := ih hfault
    refine ⟨hpos, he, b :: given, List.cons_prefix_cons.2 ⟨rfl, hgiven⟩, ?_⟩
    exact congrArg (Flow.row b) hf
  | fail hpos =>
    cases hfault
    exact ⟨hpos, rfl, [], List.nil_prefix, rfl⟩

/-! ## Limits -/

/-- The context with another limit on buffers. -/
def Context.limited (ctx : Context) (m : UInt64) : Context :=
  { ctx with config := { ctx.config with maxRows := m } }

section Limits

variable {store : QuadStore} {op : Op} (hop : op.Plain) (hdata : ctx.dataset = store.dataset)

include hop hdata

/-- Under each limit the query of a plain operator comes to a flow, which approximates the solutions
and is cut short by stricter limits. -/
theorem limited_runs : ∃ flow : UInt64 → Flow,
    (∀ m, ∃ p, compile op (ctx.limited m) .identity = .ok p ∧
      Runs (ctx.limited m) none 0 p (flow m)) ∧
    (∀ m, Approx m.toNat (flow m) (op.solve store ctx.activeGraph [.empty])) ∧
    ∀ m m', Relaxes m.toNat m'.toNat → Cut m.toNat (flow m) (flow m') := by
  refine ⟨fun m => op.flow store.source (ctx.limited m).config ctx.activeGraph none, fun m => ?_,
    fun m => ?_, fun m m' hm => ?_⟩
  · have hdata' : (ctx.limited m).dataset = store.dataset := hdata
    exact compile_runs hop hdata' none
  · exact op.flow_approx (ctx.limited m).config hop ctx.activeGraph (approx_ofRows _ none)
  · have hjoin : (ctx.limited m').config.leftJoin = (ctx.limited m).config.leftJoin := rfl
    exact op.flow_cut store.source hjoin hm ctx.activeGraph .none

/-- **A limit only refuses.** Without a limit a plain operator over a store is executed to some
rows. Under a limit it is executed to these rows or to the error that a buffer has one row more than
the limit. Rows that it is executed to are those without a limit and under every limit that is no
stricter. If it fails, then its query gives first rows of those without a limit, one by one, and
then the failure. -/
theorem Op.limit_only_refuses : ∃ rows, Executes (ctx.limited 0) op (.value rows) ∧
    ∀ m : UInt64,
      (Executes (ctx.limited m) op (.value rows) ∨
        Executes (ctx.limited m) op (.failed (.tooLarge (m.toNat + 1) m.toNat))) ∧
      ∀ fuel state, state.cancelled = false →
        (∀ bs, execute (ctx.limited m) fuel op state = .value bs →
          bs = rows ∧ ∀ m' : UInt64, Relaxes m.toNat m'.toNat →
            Executes (ctx.limited m') op (.value bs)) ∧
        (∀ e, execute (ctx.limited m) fuel op state = .failed e →
          e = .tooLarge (m.toNat + 1) m.toNat ∧ 0 < m ∧
            ∃ q given, Query.ofOp op (ctx.limited m) = (.ok q, []) ∧ given <+: rows ∧
              q.Responds (ctx.limited m) (.ofRows given ++ .fail e)) := by
  obtain ⟨flow, hcompiled, happrox, hcut⟩ := limited_runs hop hdata
  have hexecutes (m : UInt64) : Executes (ctx.limited m) op (flow m).outcome := by
    obtain ⟨p, hp, hruns⟩ := hcompiled m
    exact hruns.executes hp
  refine ⟨op.solve store ctx.activeGraph [.empty], ?_, fun m => ⟨?_, fun fuel state hs =>
    ⟨fun bs hbs => ?_, fun e he => ?_⟩⟩⟩
  · have hall := (happrox 0).eq_ofRows
    have hexec := hexecutes 0
    rwa [hall, Flow.outcome_ofRows] at hexec
  · have hexec := hexecutes m
    cases ho : (flow m).outcome with
    | value bs =>
      obtain rfl := (happrox m).rows_eq_of_outcome ho
      rw [ho] at hexec
      exact .inl hexec
    | failed e =>
      obtain ⟨-, rfl, -⟩ := (happrox m).cut_of_outcome ho
      rw [ho] at hexec
      exact .inr hexec
    | stalled =>
      unfold Flow.outcome at ho
      split at ho <;> cases ho
  · have ho := (hexecutes m).eq_of_execute hs hbs nofun
    refine ⟨((happrox m).rows_eq_of_outcome ho).symm, fun m' hm => ?_⟩
    have hexec := hexecutes m'
    rwa [(hcut m m' hm).outcome_eq ho] at hexec
  · have ho := (hexecutes m).eq_of_execute hs he nofun
    obtain ⟨hpos, herror, given, hgiven, hflow⟩ := (happrox m).cut_of_outcome ho
    obtain ⟨p, hp, hruns⟩ := hcompiled m
    rw [hflow] at hruns
    have hquery : Query.ofOp op (ctx.limited m) = (.ok ⟨p, false⟩, []) := by
      unfold Query.ofOp
      rw [hp]
      rfl
    exact ⟨herror, UInt64.lt_iff_toNat_lt.2 hpos, ⟨p, false⟩, given, hquery, hgiven,
      hruns.responds⟩

end Limits

namespace Instance

/-- The rows of the first variable, each of them once. -/
def once : Op := .distinct xs

end Instance

open Instance in
theorem Op.limit_only_refuses_once :
    execute ((context edges unlimited).limited 2) 20 once .initial =
        .value [.single x a, .single x b] ∧
      Executes ((context edges unlimited).limited 3) once (.value [.single x a, .single x b]) ∧
      execute ((context edges unlimited).limited 1) 20 once .initial =
        .failed (.tooLarge 2 1) ∧
      ∃ q given, Query.ofOp once ((context edges unlimited).limited 1) = (.ok q, []) ∧
        given <+: [.single x a, .single x b] ∧
        q.Responds ((context edges unlimited).limited 1)
          (.ofRows given ++ .fail (.tooLarge 2 1)) := by
  have hplain : once.Plain := trivial
  have hdata : (context edges unlimited).dataset = edges.dataset := rfl
  obtain ⟨rows, -, hlimits⟩ := limit_only_refuses hplain hdata
  have htwo : execute ((context edges unlimited).limited 2) 20 once .initial =
      .value [.single x a, .single x b] := rfl
  have hone : execute ((context edges unlimited).limited 1) 20 once .initial =
      .failed (.tooLarge 2 1) := rfl
  obtain ⟨rfl, hmore⟩ := ((hlimits 2).2 20 .initial rfl).1 _ htwo
  obtain ⟨-, -, hgiven⟩ := ((hlimits 1).2 20 .initial rfl).2 _ hone
  exact ⟨htwo, hmore 3 (.inr ⟨by decide, by decide⟩), hone, hgiven⟩

end TripleQuery
