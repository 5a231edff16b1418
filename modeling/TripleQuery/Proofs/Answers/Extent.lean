import TripleQuery.Proofs.Answers.SingleUse
import TripleQuery.Proofs.Expr.Stability
import TripleQuery.Proofs.Pipe.Yield

/-!
# The variables of an operator

`Op.rows_extend_seed`: an operator binds no variable that it does not mention. Each row that anyone
gets from its pipeline over one row keeps what that row binds and adds at most the variables of the
operator. This is said of the pipeline in the hands of its owner, so it holds of the rows before a
failure too, and it asks nothing of the dataset.
-/

namespace TripleQuery

variable {ctx : Context} {P : Binding → Prop}

/-! ## Asking -/

/-- Outside of any scope, no rows are kept. -/
theorem scopeHas_none : ScopeHas (fun _ => False) none := by
  intro shared hshared
  cases hshared

namespace Pipe.GivesOnly

variable {p : Pipe} {state : RunState} {log : Array Event} {fuel : Nat}

theorem step_alone (ctx : Context) (hp : p.GivesOnly (fun _ => False) P) (state : RunState) :
    (p.step ctx none state).GivesOnly (fun _ => False) P :=
  hp.step ctx scopeHas_none state

/-- The next row has the property, and so have the rows after it. -/
theorem next (hp : p.GivesOnly (fun _ => False) P) (ctx : Context) (fuel : Nat)
    (state : RunState) (log : Array Event) :
    (∀ row, (p.next ctx fuel state log).outcome = .value (some row) → P row) ∧
      (p.next ctx fuel state log).subject.GivesOnly (fun _ => False) P := by
  induction fuel generalizing p state log with
  | zero =>
    refine ⟨fun row hvalue => ?_, hp⟩
    cases hvalue
  | succ fuel ih =>
    obtain ⟨hrow, hpipe⟩ := hp.step_alone ctx state
    rw [Pipe.next]
    cases hs : (p.step ctx none state).signal with
    | skip => exact ih hpipe _ _
    | yield b =>
      refine ⟨fun row hvalue => ?_, hpipe⟩
      obtain rfl : b = row := Option.some.inj (Outcome.value.inj hvalue)
      exact hrow b hs
    | done | fail | await =>
      refine ⟨fun row hvalue => ?_, hpipe⟩
      cases hvalue

/-- The rows that draining collects have the property, if those collected before have it. -/
theorem drain_go (hp : p.GivesOnly (fun _ => False) P) {rows : Array Binding}
    (hrows : ∀ b ∈ rows, P b) {bs : List Binding}
    (h : (Pipe.drain.go ctx fuel p state log rows).outcome = .value bs) : ∀ b ∈ bs, P b := by
  induction fuel generalizing p state log rows with
  | zero => cases h
  | succ fuel ih =>
    obtain ⟨hrow, hpipe⟩ := hp.step_alone ctx state
    rw [Pipe.drain.go] at h
    cases hs : (p.step ctx none state).signal with
    | skip =>
      simp only [hs] at h
      exact ih hpipe hrows h
    | yield b =>
      simp only [hs] at h
      refine ih hpipe (fun c hc => ?_) h
      rcases Array.mem_push.1 hc with hc | rfl
      · exact hrows c hc
      · exact hrow c hs
    | done =>
      simp only [hs] at h
      obtain rfl : rows.toList = bs := Outcome.value.inj h
      exact fun b hb => hrows b (Array.mem_toList_iff.1 hb)
    | fail e =>
      simp only [hs] at h
      cases h
    | await =>
      simp only [hs] at h
      cases h

theorem drain (hp : p.GivesOnly (fun _ => False) P) {bs : List Binding}
    (h : (p.drain ctx fuel state log).outcome = .value bs) : ∀ b ∈ bs, P b :=
  hp.drain_go (fun b hb => absurd hb (by simp)) h

end Pipe.GivesOnly

namespace Held

/-- What a use leaves behind can give no other rows, and gives none. -/
theorem use_givesOnly {h : Held} (hp : h.pipe.GivesOnly (fun _ => False) P) (ctx : Context)
    (u : Use) :
    (∀ row, (h.use ctx u).1 = some (.value (some row)) → P row) ∧
      (h.use ctx u).2.pipe.GivesOnly (fun _ => False) P := by
  cases u with
  | next fuel =>
    obtain ⟨hrow, hpipe⟩ := Pipe.GivesOnly.next hp ctx fuel h.state h.log
    exact ⟨fun row hreply => hrow row (Option.some.inj hreply), hpipe⟩
  | close => exact ⟨fun row hreply => (nomatch hreply), hp.close⟩
  | cancel => exact ⟨fun row hreply => (nomatch hreply), hp⟩

theorem run_givesOnly {h : Held} (hp : h.pipe.GivesOnly (fun _ => False) P) (uses : List Use)
    {u : Use} {row : Binding} (hrow : (u, some (.value (some row))) ∈ (h.run ctx uses).1) :
    P row := by
  induction uses generalizing h with
  | nil => cases hrow
  | cons first uses ih =>
    obtain ⟨hreply, hpipe⟩ := use_givesOnly hp ctx first
    rcases List.mem_cons.1 hrow with hfirst | hrest
    · exact hreply row (congrArg Prod.snd hfirst).symm
    · exact ih hpipe hrest

end Held

/-! ## Operators -/

/-- **The variables of an operator bound its rows.** A plain operator compiles over any one row, in
any context: over any dataset, whatever it answers, under any active graph and any configuration.
Each row that its pipeline gives, to an owner who does anything with it or to someone who drains it,
binds the variables of the seed as the seed does, and no variable besides those of the seed and
those of the operator. -/
theorem Op.rows_extend_seed {op : Op} (hop : op.Plain) (ctx : Context) (s : Binding) :
    ∃ p, compile op ctx (.input (.single s)) = .ok p ∧ ∀ state log,
      (∀ uses u row, (u, some (.value (some row))) ∈ ((Held.mk p state log).run ctx uses).1 →
        s.ExtendsWithin (variableSet op.mentions) row) ∧
      ∀ fuel rows, (p.drain ctx fuel state log).outcome = .value rows →
        ∀ row ∈ rows, s.ExtendsWithin (variableSet op.mentions) row := by
  have hseed : (Seed.input (.single s)).toPipe.GivesOnly (fun _ => False) (· = s) :=
    fun b hb => List.mem_singleton.1 hb
  have hgives : (op.pipe ctx ctx.activeGraph (.input (.single s))).GivesOnly (fun _ => False)
      (s.ExtendsWithin op.mentions) :=
    op.pipe_givesOnly hop ctx ctx.activeGraph hseed fun b m hb hm => hb ▸ hm
  have hset {row : Binding} (h : s.ExtendsWithin op.mentions row) :
      s.ExtendsWithin (variableSet op.mentions) row := h.mono fun v hv => mem_variableSet.2 hv
  refine ⟨op.pipe ctx ctx.activeGraph (.input (.single s)), compile_plain hop ctx ctx.activeGraph _,
    fun state log => ⟨fun uses u row hrow => ?_, fun fuel rows hrows row hrow => ?_⟩⟩
  · exact hset (Held.run_givesOnly hgives uses hrow)
  · exact hset (hgives.drain hrows row hrow)

namespace Instance

/-- The ends of the edges; where they start is hidden. -/
def ends : Op := .project [y] edge

/-- A dataset that lists the edges whatever it is asked. -/
def careless : Context := { context edges .standard with dataset := edges.carelessDataset }

end Instance

open Instance in
theorem Op.rows_extend_seed_ends :
    let row : Binding := .ofPairs [(x, b), (y, a)]
    ∃ p, compile ends careless (.input (.single (.single x b))) = .ok p ∧
      ((Held.mk p .initial #[]).run careless [.next 9, .next 9]).1 =
        [(.next 9, some (.value (some row))), (.next 9, some (.value none))] ∧
      (Binding.single x b).ExtendsWithin (variableSet ends.mentions) row ∧
      variableSet ends.mentions = [y] := by
  have hplain : ends.Plain := trivial
  obtain ⟨p, hp, hbounds⟩ := rows_extend_seed hplain careless (.single x b)
  refine ⟨p, hp, ?_⟩
  obtain rfl : ends.pipe careless .default (.input (.single (.single x b))) = p :=
    Except.ok.inj (congrArg Compiled.result hp)
  have hrun : ((Held.mk (ends.pipe careless .default (.input (.single (.single x b)))) .initial
      #[]).run careless [.next 9, .next 9]).1 =
      [(.next 9, some (.value (some (.ofPairs [(x, b), (y, a)])))),
        (.next 9, some (.value none))] := rfl
  obtain ⟨hused, -⟩ := hbounds .initial #[]
  exact ⟨hrun, hused [.next 9, .next 9] (.next 9) _ (hrun ▸ List.mem_cons_self), rfl⟩

end TripleQuery
