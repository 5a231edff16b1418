import TripleQuery.Proofs.Answers.Refinement
import TripleQuery.Proofs.Pipe.Phases

/-!
# Single use

A pipeline is used up once (`Op.pipeline_single_use`). Whatever its owner does with it, its phase
never goes back, and the phase tells whether there is more to come. Once someone has been told that
there is no more, or has closed the pipeline, everyone is told so at once, and nobody else is asked:
not the dataset, not a condition, and no pipeline below. Failures in between change nothing about
that.
-/

namespace TripleQuery

theorem Phase.isDone_iff (p : Phase) : p.isDone = true ↔ 2 ≤ p.rank := by
  cases p <;> simp [isDone, rank]

/-! ## Asking -/

section Asking

variable {ctx : Context} {p : Pipe} {fuel : Nat} {state : RunState} {log : Array Event}

/-- The answer of a pipeline fits the phase in which it leaves it, and that does not lie behind. -/
structure Answer.Follows (a : Answer Pipe (Option Binding)) (p : Pipe) : Prop where
  ends : a.outcome = .value none ↔ a.subject.phase.isDone = true
  forward : p.phase.rank ≤ a.subject.phase.rank
  recorders : a.subject.recorders = p.recorders

theorem Pipe.next_running (h : p.phase.isDone = false) : (p.next ctx fuel state log).Follows p := by
  induction fuel generalizing p state log with
  | zero =>
    refine ⟨⟨fun hnone => ?_, fun hdone => ?_⟩, Nat.le_refl _, rfl⟩
    · cases hnone
    · exact absurd (h.symm.trans hdone) Bool.false_ne_true
  | succ fuel ih =>
    obtain ⟨hphase, hrecorders⟩ := step_moves ctx none state h
    have hrank : p.phase.rank ≤ Phase.active.rank := by
      have hnot := mt p.phase.isDone_iff.2 (ne_true_of_eq_false h)
      show _ ≤ 1
      omega
    rw [next]
    cases hs : (p.step ctx none state).signal with
    | skip =>
      rw [hs] at hphase
      have hopen : (p.step ctx none state).pipe.phase.isDone = false := by rw [hphase]; rfl
      have hrest : ((p.step ctx none state).pipe.next ctx fuel (p.step ctx none state).state
          (log ++ (p.step ctx none state).events)).Follows (p.step ctx none state).pipe := ih hopen
      have hforward := hrest.forward
      rw [hphase] at hforward
      exact ⟨hrest.ends, Nat.le_trans hrank hforward, hrest.recorders.trans hrecorders⟩
    | yield _ | await | fail _ =>
      rw [hs] at hphase
      refine ⟨⟨fun hnone => ?_, fun hdone => ?_⟩, hphase ▸ hrank, hrecorders⟩
      · cases hnone
      · rw [hphase] at hdone
        cases hdone
    | done =>
      rw [hs] at hphase
      have hended : (p.step ctx none state).pipe.phase.isDone = true := by rw [hphase]; rfl
      exact ⟨⟨fun _ => hended, fun _ => rfl⟩, hphase ▸ Nat.le_trans hrank (Nat.le_succ 1),
        hrecorders⟩

/-- The answer of a pipeline that has ended: there is no more. Neither the run nor anything below
the root changes; the log shows at most that the trackers at the root have heard the question. -/
structure Answer.Rests (a : Answer Pipe (Option Binding)) (p : Pipe) (state : RunState)
    (log : Array Event) : Prop where
  outcome : a.outcome = .value none
  subject : a.subject = p.rested
  state : a.state = state
  log : ∃ own : List Event, a.log = log ++ own ∧ ∀ e ∈ own, ∃ id ∈ p.recorders, e = .pulled id

theorem Pipe.next_ended (h : p.phase.isDone = true) (hfuel : 0 < fuel) :
    (p.next ctx fuel state log).Rests p state log := by
  obtain ⟨fuel, rfl⟩ := Nat.exists_eq_add_one_of_ne_zero (Nat.ne_of_gt hfuel)
  have hs := step_ended ctx none state h
  rw [next]
  simp only [hs.signal]
  exact ⟨rfl, hs.pipe, hs.state, _, rfl, hs.events⟩

theorem Pipe.next_follows (hfuel : 0 < fuel) : (p.next ctx fuel state log).Follows p := by
  cases h : p.phase.isDone with
  | false => exact next_running h
  | true =>
    have hrests : (p.next ctx fuel state log).Rests p state log := next_ended h hfuel
    have hphase : (p.next ctx fuel state log).subject.phase = p.phase := by
      rw [hrests.subject, rested_phase]
    refine ⟨⟨fun _ => hphase ▸ h, fun _ => hrests.outcome⟩, hphase ▸ Nat.le_refl _, ?_⟩
    rw [hrests.subject, rested_recorders]

end Asking

/-! ## Owners -/

/-- What the owner of a pipeline does with it. Whoever shares the state of the run can cancel it as
well. -/
inductive Use where
  | next (fuel : Nat)
  | close
  | cancel

/-- What the owner of a pipeline is told, if it has asked. -/
abbrev Use.Reply : Type := Option (Outcome (Option Binding))

/-- Whether the owner knows from a use and its reply that the pipeline has ended. -/
def Use.ends : Use → Use.Reply → Bool
  | next _, some (.value none) | close, _ => true
  | _, _ => false

/-- A pipeline in the hands of its owner. -/
structure Held where
  pipe : Pipe
  state : RunState
  log : Array Event

namespace Held

variable {ctx : Context}

/-- The reply to a use of a pipeline, and the pipeline after it. -/
def use (ctx : Context) (h : Held) : Use → Use.Reply × Held
  | .next fuel =>
    let a := h.pipe.next ctx fuel h.state h.log
    (some a.outcome, ⟨a.subject, a.state, a.log⟩)
  | .close => (none, ⟨h.pipe.close.1, h.state, h.log ++ h.pipe.close.2⟩)
  | .cancel => (none, { h with state := h.state.cancel })

/-- Some uses of a pipeline with their replies, and the pipeline after them. -/
def run (ctx : Context) (h : Held) : List Use → List (Use × Use.Reply) × Held
  | [] => ([], h)
  | u :: uses =>
    let (reply, h) := h.use ctx u
    let (history, h) := h.run ctx uses
    ((u, reply) :: history, h)

/-- The pipeline is as far or further, under the same trackers. -/
structure Before (h h' : Held) : Prop where
  forward : h.pipe.phase.rank ≤ h'.pipe.phase.rank
  recorders : h'.pipe.recorders = h.pipe.recorders

theorem Before.done {h h' : Held} (hb : h.Before h') (hdone : h.pipe.phase.isDone = true) :
    h'.pipe.phase.isDone = true :=
  (Phase.isDone_iff _).2 (Nat.le_trans ((Phase.isDone_iff _).1 hdone) hb.forward)

theorem use_before (h : Held) (u : Use) : h.Before (h.use ctx u).2 := by
  cases u with
  | next fuel =>
    rcases Nat.eq_zero_or_pos fuel with rfl | hfuel
    · exact ⟨Nat.le_refl _, rfl⟩
    · have hfollows : (h.pipe.next ctx fuel h.state h.log).Follows h.pipe := Pipe.next_follows hfuel
      exact ⟨hfollows.forward, hfollows.recorders⟩
  | close =>
    refine ⟨?_, h.pipe.close_recorders⟩
    show h.pipe.phase.rank ≤ h.pipe.close.1.phase.rank
    rw [Pipe.close_phase]
    cases h.pipe.phase <;> decide
  | cancel => exact ⟨Nat.le_refl _, rfl⟩

/-- Who asks is told that there is no more exactly if the pipeline has ended by then. -/
theorem next_tells (h : Held) {fuel : Nat} (hfuel : 0 < fuel) :
    (h.use ctx (.next fuel)).1 = some (.value none) ↔
      (h.use ctx (.next fuel)).2.pipe.phase.isDone = true := by
  have hfollows : (h.pipe.next ctx fuel h.state h.log).Follows h.pipe := Pipe.next_follows hfuel
  exact ⟨fun hreply => hfollows.ends.1 (Option.some.inj hreply),
    fun hdone => congrArg some (hfollows.ends.2 hdone)⟩

theorem use_ends (h : Held) {u : Use} (hu : u.ends (h.use ctx u).1 = true) :
    (h.use ctx u).2.pipe.phase.isDone = true := by
  cases u with
  | next fuel =>
    rcases Nat.eq_zero_or_pos fuel with rfl | hfuel
    · cases hu
    · refine (h.next_tells hfuel).1 ?_
      unfold Use.ends at hu
      split at hu
      · assumption
      · next heq => cases heq
      · cases hu
  | close =>
    show h.pipe.close.1.phase.isDone = true
    rw [Pipe.close_phase]
    rfl
  | cancel => cases hu

theorem run_before (h : Held) (uses : List Use) : h.Before (h.run ctx uses).2 := by
  induction uses generalizing h with
  | nil => exact ⟨Nat.le_refl _, rfl⟩
  | cons u uses ih =>
    have huse : h.Before (h.use ctx u).2 := use_before h u
    have hrest := ih (h.use ctx u).2
    exact ⟨Nat.le_trans huse.forward hrest.forward, hrest.recorders.trans huse.recorders⟩

/-- Once a use has ended the pipeline it stays so. -/
theorem run_ends (h : Held) (uses : List Use)
    (hends : ∃ u ∈ (h.run ctx uses).1, u.1.ends u.2 = true) :
    (h.run ctx uses).2.pipe.phase.isDone = true := by
  induction uses generalizing h with
  | nil =>
    obtain ⟨u, hu, -⟩ := hends
    cases hu
  | cons u uses ih =>
    obtain ⟨past, hpast, hend⟩ := hends
    rcases List.mem_cons.1 hpast with rfl | hpast
    · exact (run_before (h.use ctx u).2 uses).done (h.use_ends hend)
    · exact ih (h.use ctx u).2 ⟨past, hpast, hend⟩

end Held

/-! ## Pipelines of operators -/

/-- The pipeline is the seed's, or there is a stage on top of it. -/
def Seed.Under (seed : Seed) (p : Pipe) : Prop := p = seed.toPipe ∨ p.recorders = []

theorem Seed.under_joined (seed : Seed) {own : Pipe} (h : Seed.identity.Under own) :
    seed.Under (seed.joined own) := by
  cases seed with
  | identity => exact h
  | input p => exact .inr rfl

theorem scanChain_recorders (slot : GraphSlot) (patterns : List TriplePattern) :
    ∀ (condition : Option Expr) (bound : List Variable) (p : Pipe),
      scanChain slot condition bound patterns p = p ∨
        (scanChain slot condition bound patterns p).recorders = [] := by
  induction patterns with
  | nil =>
    intro condition bound p
    cases condition with
    | none => exact .inl rfl
    | some e => exact .inr rfl
  | cons pattern patterns ih =>
    -- what stands on top of the chain so far is a scan or a filter
    have htop (condition bound) {p : Pipe} (hp : p.recorders = []) :
        (scanChain slot condition bound patterns p).recorders = [] := by
      rcases ih condition bound p with h | h
      · rw [h, hp]
      · exact h
    intro condition bound p
    right
    cases condition with
    | none => exact htop none _ rfl
    | some e =>
      rw [scanChain]
      split
      · exact htop none _ rfl
      · exact htop (some e) _ rfl

/-- An operator puts a stage on its seed or has none. -/
theorem Op.pipe_under (ctx : Context) (op : Op) (g : ActiveGraph) (seed : Seed) :
    seed.Under (op.pipe ctx g seed) := by
  induction op generalizing g seed with
  | bgp | quadPattern => exact scanChain_recorders _ _ _ _ _
  | datasetNames | table => exact .inr rfl
  | extension => exact .inl rfl
  | join l r ihl ihr =>
    rcases ihr g (.input (l.pipe ctx g seed)) with h | h
    · exact h ▸ ihl g seed
    · exact .inr h
  | leftJoin l r condition ihl ihr =>
    refine seed.under_joined (.inr ?_)
    split <;> rfl
  | union l r ihl ihr => cases seed <;> exact .inr rfl
  | filter e sub ih =>
    have hfiltered (seed : Seed) :
        seed.Under (sub.filtered ctx e g seed (sub.pipe ctx g seed)) := by
      unfold filtered
      split
      · exact scanChain_recorders _ _ _ _ _
      · exact .inr rfl
    rw [pipe]
    split
    · exact hfiltered seed
    · exact seed.under_joined (hfiltered .identity)
  | graph name sub ih =>
    cases name with
    | term name => exact ih (.named name) seed
    | var v => exact .inr rfl
  | order | project | distinct | slice => exact seed.under_joined (.inr rfl)

/-- **Pipelines are used up once.** A plain operator compiles over any seed, in any context. Take
any uses of its pipeline, from any state of the run on. The next use never takes its phase back. Who
asks is told that there is no more exactly if the pipeline is exhausted or closed afterwards. And if
the owner was told so before, or has closed the pipeline, then the reply is that there is no more.
The state of the run and everything below the root are the same then, and nothing is heard; only if
the operator has no stage of its own, and its pipeline is that of the seed, do trackers at its root
record the question. -/
theorem Op.pipeline_single_use {op : Op} (hop : op.Plain) (ctx : Context) (seed : Seed) :
    ∃ p, compile op ctx seed = .ok p ∧ ∀ state log uses,
      let history := ((Held.mk p state log).run ctx uses).1
      let held := ((Held.mk p state log).run ctx uses).2
      (∀ u, held.pipe.phase.rank ≤ (held.use ctx u).2.pipe.phase.rank) ∧
        ∀ fuel, 0 < fuel →
          let reply := (held.use ctx (.next fuel)).1
          let after := (held.use ctx (.next fuel)).2
          (reply = some (.value none) ↔ after.pipe.phase.isDone = true) ∧
            ((∃ u ∈ history, u.1.ends u.2 = true) →
              reply = some (.value none) ∧ after.pipe = held.pipe.rested ∧
                after.state = held.state ∧ ∃ own : List Event, after.log = held.log ++ own ∧
                  (own = [] ∨ p = seed.toPipe) ∧
                    ∀ e ∈ own, ∃ id ∈ p.recorders, e = .pulled id) := by
  refine ⟨op.pipe ctx ctx.activeGraph seed, compile_plain hop ctx ctx.activeGraph seed,
    fun state log uses => ?_⟩
  let start : Held := ⟨op.pipe ctx ctx.activeGraph seed, state, log⟩
  let held : Held := (start.run ctx uses).2
  refine ⟨fun u => (held.use_before u).forward, fun fuel hfuel =>
    ⟨held.next_tells hfuel, fun hends => ?_⟩⟩
  have hrests : (held.pipe.next ctx fuel held.state held.log).Rests held.pipe held.state held.log :=
    Pipe.next_ended (start.run_ends uses hends) hfuel
  obtain ⟨own, hlog, hown⟩ := hrests.log
  rw [(start.run_before uses).recorders] at hown
  refine ⟨congrArg some hrests.outcome, hrests.subject, hrests.state, own, hlog, ?_, hown⟩
  rcases op.pipe_under ctx ctx.activeGraph seed with hseed | hnone
  · exact .inr hseed
  · refine .inl (List.eq_nil_iff_forall_not_mem.2 fun e he => ?_)
    obtain ⟨id, hid, -⟩ := hown e he
    rw [hnone] at hid
    cases hid

namespace Instance

/-- A seed that fails before it gives a row. -/
def torn : Seed := .input (.script .created [.fail .cancelled, .row (.single x a)])

/-- The edges from the rows of the seed, as a pipeline. -/
def tornEdges : Held :=
  ⟨.scan .created ⟨.var x, .term b, .var y⟩ .default .idle torn.toPipe, .initial, #[]⟩

end Instance

open Instance in
theorem Op.pipeline_single_use_torn :
    let uses : List Use := [.next 9, .next 9, .next 9]
    let held := (tornEdges.run (context edges unlimited) uses).2
    (tornEdges.run (context edges unlimited) uses).1 =
        [(.next 9, some (.failed .cancelled)),
          (.next 9, some (.value (some ((Binding.single x a).insert y a)))),
          (.next 9, some (.value none))] ∧
      (held.use (context edges unlimited) (.next 1)).1 = some (.value none) ∧
      (held.use (context edges unlimited) (.next 1)).2.log = held.log := by
  have hplain : edge.Plain := trivial
  obtain ⟨p, hp, huses⟩ := pipeline_single_use hplain (context edges unlimited) torn
  obtain rfl : tornEdges.pipe = p := Except.ok.inj (congrArg Compiled.result hp)
  obtain ⟨-, hnext⟩ := huses .initial #[] [.next 9, .next 9, .next 9]
  obtain ⟨-, hended⟩ := hnext 1 Nat.one_pos
  have hlast : (Use.next 9, some (.value none)) ∈ (tornEdges.run (context edges unlimited)
      [.next 9, .next 9, .next 9]).1 :=
    List.mem_cons_of_mem _ (List.mem_cons_of_mem _ List.mem_cons_self)
  obtain ⟨hreply, -, -, own, hlog, hown, -⟩ := hended ⟨_, hlast, rfl⟩
  refine ⟨rfl, hreply, ?_⟩
  rcases hown with rfl | hseed
  · exact hlog.trans Array.appendList_nil
  · cases hseed

end TripleQuery
