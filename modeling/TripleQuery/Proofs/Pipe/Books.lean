import TripleQuery.Proofs.Pipe.Compile
import TripleQuery.Proofs.Pipe.Handover

/-!
# Steps keep the books

Whatever a pipeline owed has happened with a step or is owed for the pipeline afterwards
(`Pipe.step_keeps`); what a step builds on the way is owed besides. The stages that compile in the
middle of a run need to know that compiling does the same (`Context.Compiles`), be it because the
operators are plain or because every realization is careful.

For plain operators the counts follow (`Pipe.step_counted`, `Pipe.step_balance`). A pipeline without
open readers takes the same step in every scope (`Pipe.step_unscoped`).
-/

namespace TripleQuery

open scoped List

/-! ## Events that settle nothing -/

namespace Settles

variable {done due more : List Event}

theorem of_none (hr : TripleQuery.releases more = 0) (ha : ∀ id, announcements id more = 0) :
    Settles more [] :=
  ⟨hr, fun id => by rw [ha id]; exact Nat.zero_le _⟩

theorem of_inquiries (h : ∀ e ∈ more, e.isInquiry = true) : Settles more [] := by
  refine .of_none (releases_eq_zero fun e he => ?_) fun id => List.countP_eq_zero.2 fun e he => ?_
  · have := h e he
    cases e <;> first | rfl | cases this
  · have := h e he
    cases e <;> first | exact Bool.false_ne_true | cases this

theorem extend (h : Settles done due) (hmore : Settles more []) : Settles (done ++ more) due := by
  have := h.append hmore
  rwa [List.append_nil] at this

/-- A pipeline that is closed again settles nothing more. -/
theorem of_closed {pending : Op → Prop} {strict : Prop} {p : Pipe} (hp : p.Kept pending strict) :
    Settles p.close.1.close.2 [] :=
  .of_none hp.releases_closed fun id => p.close.1.announcements_close id

theorem testEvents (condition : Option Expr) (b : Binding) :
    Settles (TripleQuery.testEvents condition b) [] := by
  refine of_inquiries fun e he => ?_
  cases condition with
  | none => cases he
  | some c =>
    cases List.mem_singleton.1 he
    rfl

theorem evaluations (keys : List SortKey) (row : Binding) :
    Settles (keys.map fun k => Event.evaluate k.expr row) [] := by
  refine of_inquiries fun e he => ?_
  obtain ⟨k, -, rfl⟩ := List.mem_map.1 he
  rfl

theorem loadNames (ctx : Context) (known : Option (List Term)) (state : RunState) :
    Settles (ctx.loadNames known state).2.1 [] := by
  cases known with
  | some names => exact .nil
  | none =>
    refine of_inquiries fun e he => ?_
    cases List.mem_singleton.1 he
    rfl

end Settles

/-! ## Steps -/

/-- A step that settles what was due before it, as far as the pipeline does not owe it any more.
Only a pipeline with an open reader waits. -/
structure Step.Keeps (pending : Op → Prop) (strict : Prop) (s : Step) (due : List Event) :
    Prop where
  kept : s.pipe.Kept pending strict
  settles : Settles (s.events ++ s.pipe.close.2) due
  waits : s.signal = .await → 0 < s.pipe.readers

/-- In the middle of a run, operators that are yet to be compiled are compiled over a row: they
leave nothing open but what the pipeline owes. -/
def Context.Compiles (ctx : Context) (pending : Op → Prop) (strict : Prop) : Prop :=
  ∀ sub, pending sub → ∀ (g : ActiveGraph) (row : Binding),
    let compiled := compile sub (ctx.inGraph g) (.input (.single row))
    (∀ p, compiled.result = .ok p → p.Kept pending strict) ∧
      Settles (compiled.events ++ compiled.owed) []

section Keeping

variable {pending : Op → Prop} {strict : Prop}

theorem Encloses.readers_pos {stage : Pipe → Pipe} {extra : List Event}
    (h : Encloses (Pipe.Kept pending strict) stage extra) {q : Pipe}
    (hq : q.Kept pending strict) (hpos : 0 < q.readers) : 0 < (stage q).readers := by
  obtain ⟨hstage, hclose⟩ := h q hq
  have hreleases := releases_perm hclose
  rw [releases_append, hstage.close.2.2, hq.close.2.2] at hreleases
  omega

namespace Step.Keeps

variable {s : Step} {due extra : List Event}

theorem perm {due' : List Event} (h : s.Keeps pending strict due) (hdue : due ~ due') :
    s.Keeps pending strict due' :=
  ⟨h.kept, h.settles.perm (.refl _) hdue, h.waits⟩

/-- A step that neither closes nor builds anything. -/
theorem same {p : Pipe} {events : List Event} {signal : Signal} {state : RunState}
    (hp : p.Kept pending strict) (hdue : p.close.2 ~ due) (he : Settles events [])
    (hs : signal ≠ .await) : Step.Keeps pending strict ⟨signal, p, events, state⟩ due :=
  ⟨hp, (he.append p.settles_close).perm (.refl _) hdue, fun h => absurd h hs⟩

theorem quiet {p : Pipe} {signal : Signal} {state : RunState} (hp : p.Kept pending strict)
    (hdue : p.close.2 ~ due) (hs : signal ≠ .await) :
    (Step.quiet signal p state).Keeps pending strict due :=
  same hp hdue .nil hs

/-- A step with which a stage closes its input. -/
theorem closing {stage : Pipe → Pipe} {input : Pipe} {signal : Signal} {state : RunState}
    (h : Encloses (Pipe.Kept pending strict) stage extra) (hextra : Settles extra extra)
    (hi : input.Kept pending strict) (hs : signal ≠ .await) :
    Step.Keeps pending strict ⟨signal, stage input.close.1, input.close.2, state⟩
      (input.close.2 ++ extra) := by
  obtain ⟨hkept, hclose⟩ := h input.close.1 hi.close.1
  refine ⟨hkept, ?_, fun h => absurd h hs⟩
  have hsettles := (input.settles_close.extend (.of_closed hi)).append hextra
  rw [List.append_assoc] at hsettles
  exact hsettles.perm (hclose.symm.append_left _) (.refl _)

/-- A stage that owes what its input owes closes it. -/
theorem closingOne {stage : Pipe → Pipe} {input : Pipe} {signal : Signal} {state : RunState}
    (h : Encloses (Pipe.Kept pending strict) stage []) (hi : input.Kept pending strict)
    (hs : signal ≠ .await) :
    Step.Keeps pending strict ⟨signal, stage input.close.1, input.close.2, state⟩
      input.close.2 :=
  (closing h .nil hi hs).perm (by rw [List.append_nil])

/-- The last step of a stage with one input. -/
theorem finish {ended : Pipe → Pipe} {input : Pipe} {state : RunState}
    (h : Encloses (Pipe.Kept pending strict) ended []) (hi : input.Kept pending strict) :
    (Step.finish ended input state).Keeps pending strict input.close.2 :=
  closingOne h hi (show Signal.done ≠ .await by nofun)

theorem after {events more : List Event} (h : s.Keeps pending strict more)
    (hevents : Settles (events ++ more) due) : (s.after events).Keeps pending strict due := by
  refine ⟨h.kept, ?_, h.waits⟩
  show Settles ((events ++ s.events) ++ s.pipe.close.2) due
  rw [List.append_assoc]
  exact hevents.trans h.settles

/-- A step of the input of a stage that owes something besides. -/
theorem around (h : s.Keeps pending strict due) {stage : Pipe → Pipe}
    (hstage : Encloses (Pipe.Kept pending strict) stage extra) (hextra : Settles extra extra) :
    Step.Keeps pending strict { s with pipe := stage s.pipe } (due ++ extra) := by
  obtain ⟨hkept, hclose⟩ := hstage s.pipe h.kept
  refine ⟨hkept, ?_, fun hs => hstage.readers_pos h.kept (h.waits hs)⟩
  have hsettles := h.settles.append hextra
  rw [List.append_assoc] at hsettles
  exact hsettles.perm (hclose.symm.append_left _) (.refl _)

/-- A stage keeps the books if it does so with each row and at the end. -/
theorem feedOr (h : s.Keeps pending strict due) {hold drop : Pipe → Pipe}
    {onRow : Binding → Pipe → RunState → Step} {onEnd : Pipe → RunState → Step}
    (hextra : Settles extra extra) (hhold : Encloses (Pipe.Kept pending strict) hold extra)
    (hdrop : Encloses (Pipe.Kept pending strict) drop extra)
    (hrow : ∀ b q state, q.Kept pending strict →
      (onRow b q state).Keeps pending strict (q.close.2 ++ extra))
    (hend : ∀ q state, q.Kept pending strict →
      (onEnd q state).Keeps pending strict (q.close.2 ++ extra)) :
    (s.feedOr hold drop onRow onEnd).Keeps pending strict (due ++ extra) := by
  have hevents := h.settles.append hextra
  rw [List.append_assoc] at hevents
  unfold Step.feedOr
  cases hs : s.signal with
  | yield b => exact (hrow b s.pipe s.state h.kept).after hevents
  | done => exact (hend s.pipe s.state h.kept).after hevents
  | fail e =>
    have hdropped := h.around hdrop hextra
    rwa [hs] at hdropped
  | skip | await =>
    have hheld := h.around hhold hextra
    rwa [hs] at hheld

/-- A stage that owes what its input owes. -/
theorem feedOne (h : s.Keeps pending strict due) {hold drop : Pipe → Pipe}
    {onRow : Binding → Pipe → RunState → Step} {onEnd : Pipe → RunState → Step}
    (hhold : Encloses (Pipe.Kept pending strict) hold [])
    (hdrop : Encloses (Pipe.Kept pending strict) drop [])
    (hrow : ∀ b q state, q.Kept pending strict →
      (onRow b q state).Keeps pending strict q.close.2)
    (hend : ∀ q state, q.Kept pending strict →
      (onEnd q state).Keeps pending strict q.close.2) :
    (s.feedOr hold drop onRow onEnd).Keeps pending strict due := by
  have hfed : (s.feedOr hold drop onRow onEnd).Keeps pending strict (due ++ []) :=
    h.feedOr .nil hhold hdrop (fun b q state hq => (hrow b q state hq).perm
      (by rw [List.append_nil])) fun q state hq => (hend q state hq).perm (by rw [List.append_nil])
  exact hfed.perm (by rw [List.append_nil])

end Step.Keeps

/-! ## Stages with one input -/

section Stages

variable (ctx : Context) {input left right inner : Pipe} {s : Step} {due : List Event}

theorem scanStep_keeps (pattern : TriplePattern) (slot : GraphSlot)
    (h : s.Keeps pending strict due) :
    (scanStep ctx pattern slot s).Keeps pending strict due := by
  have hstage (phase : Phase) (at' : ScanState) :
      Encloses (Pipe.Kept pending strict) (.scan phase pattern slot at') [] :=
    encloses_input (fun _ => rfl) fun _ => rfl
  refine h.feedOne (hstage _ _) (hstage _ _) (fun row q state hq => ?_) fun q state hq =>
    .finish (hstage _ _) hq
  have hasked : Settles [.scan (ScanRequest.ofPattern pattern slot row)] [] :=
    .of_inquiries fun e he => by cases List.mem_singleton.1 he; rfl
  unfold scanRow
  dsimp only
  split <;> exact .same hq (.refl _) hasked nofun

theorem scanItem_keeps (pattern : TriplePattern) (slot : GraphSlot) (row : Binding)
    (items : List CursorItem) (h : input.Kept pending strict) (state : RunState) :
    (scanItem ctx pattern slot row items input state).Keeps pending strict input.close.2 := by
  unfold scanItem
  split
  · exact .quiet h (.refl _) nofun
  · refine .quiet h (.refl _) ?_
    cases bindQuad pattern slot row _ <;> nofun
  · exact .quiet h (.refl _) nofun
  · exact .quiet h (.refl _) nofun

theorem filterStep_keeps (e : Expr) (h : s.Keeps pending strict due) :
    (filterStep ctx e s).Keeps pending strict due := by
  have hstage (phase : Phase) : Encloses (Pipe.Kept pending strict) (.filter phase e) [] :=
    encloses_input (fun _ => rfl) fun _ => rfl
  refine h.feedOne (hstage _) (hstage _) (fun row q state hq => ?_) fun q state hq =>
    .finish (hstage _) hq
  unfold filterRow
  split <;> exact .same hq (.refl _) (.testEvents (some e) row) nofun

theorem projectStep_keeps (vars : List Variable) (h : s.Keeps pending strict due) :
    (projectStep vars s).Keeps pending strict due := by
  have hstage (phase : Phase) : Encloses (Pipe.Kept pending strict) (.project phase vars) [] :=
    encloses_input (fun _ => rfl) fun _ => rfl
  unfold projectStep Step.feed
  refine h.feedOne (hstage _) (hstage _) (fun row q state hq => ?_) fun q state hq =>
    .finish (hstage _) hq
  exact .quiet hq (.refl _) nofun

theorem namesStep_keeps (name : TermPattern) (known : Option (List Term))
    (h : s.Keeps pending strict due) :
    (namesStep ctx name known s).Keeps pending strict due := by
  have hstage (phase : Phase) :
      Encloses (Pipe.Kept pending strict) (.names phase name known []) [] :=
    encloses_input (fun _ => rfl) fun _ => rfl
  refine h.feedOne (hstage _) (hstage _) (fun row q state hq => ?_) fun q state hq =>
    .finish (hstage _) hq
  have hasked := Settles.loadNames ctx known state
  unfold namesRow
  split <;> rename_i hload <;> rw [hload] at hasked <;> exact .same hq (.refl _) hasked nofun

theorem tableStep_keeps (rows : List Binding) (h : s.Keeps pending strict due) :
    (tableStep rows s).Keeps pending strict due := by
  have hstage (phase : Phase) : Encloses (Pipe.Kept pending strict) (.table phase rows .idle) [] :=
    encloses_input (fun _ => rfl) fun _ => rfl
  unfold tableStep Step.feed
  refine h.feedOne (hstage _) (hstage _) (fun row q state hq => ?_) fun q state hq =>
    .finish (hstage _) hq
  exact .quiet hq (.refl _) nofun

theorem tableTry_keeps (rows : List Binding) (row : Binding) (untried : List Binding)
    (h : input.Kept pending strict) (state : RunState) :
    (tableTry rows row untried input state).Keeps pending strict input.close.2 := by
  unfold tableTry
  split
  · exact .quiet h (.refl _) nofun
  · refine .quiet h (.refl _) ?_
    cases (row.merge _).toOption <;> nofun

theorem sliceStep_keeps (skip : Nat) (remaining : Option Nat) (h : s.Keeps pending strict due) :
    (sliceStep skip remaining s).Keeps pending strict due := by
  have hstage (phase : Phase) (skip : Nat) (remaining : Option Nat) :
      Encloses (Pipe.Kept pending strict) (.slice phase skip remaining) [] :=
    encloses_input (fun _ => rfl) fun _ => rfl
  refine h.feedOne (hstage _ _ _) (hstage _ _ _) (fun row q state hq => ?_) fun q state hq =>
    .finish (hstage _ _ _) hq
  unfold sliceRow
  split
  · exact .quiet hq (.refl _) nofun
  · split
    · exact .closingOne (hstage _ _ _) hq nofun
    · exact .quiet hq (.refl _) nofun
  · exact .quiet hq (.refl _) nofun

theorem distinctStep_keeps (seen : List Binding) (limit : Nat) (h : s.Keeps pending strict due) :
    (distinctStep seen limit s).Keeps pending strict due := by
  have hstage (phase : Phase) (seen : List Binding) :
      Encloses (Pipe.Kept pending strict) (.distinct phase seen limit) [] :=
    encloses_input (fun _ => rfl) fun _ => rfl
  refine h.feedOne (hstage _ _) (hstage _ _) (fun row q state hq => ?_) fun q state hq =>
    .finish (hstage _ _) hq
  unfold distinctRow
  split
  · exact .quiet hq (.refl _) nofun
  · refine .quiet hq (.refl _) ?_
    split <;> nofun

theorem orderStep_keeps (keys : List SortKey) (keyed : Array (List (Option Term) × Binding))
    (h : s.Keeps pending strict due) :
    (orderStep ctx keys keyed s).Keeps pending strict due := by
  have hstage (phase : Phase) (at' : OrderState) :
      Encloses (Pipe.Kept pending strict) (.order phase keys at') [] :=
    encloses_input (fun _ => rfl) fun _ => rfl
  refine h.feedOne (hstage _ _) (hstage _ _) (fun row q state hq => ?_) fun q state hq =>
    .closingOne (hstage _ _) hq nofun
  unfold orderRow
  split
  · exact .quiet hq (.refl _) nofun
  · dsimp only
    split <;> exact .same hq (.refl _) (.evaluations keys row) nofun

/-! ## Stages with several inputs -/

theorem joinFinish_keeps (kind : JoinKind) (condition : Option Expr)
    (hl : left.Kept pending strict) (hr : right.Kept pending strict) (state : RunState) :
    (joinFinish kind condition left right state).Keeps pending strict
      (left.close.2 ++ right.close.2) := by
  refine ⟨⟨hl.close.1, hr.close.1⟩, ?_, nofun⟩
  exact (left.settles_close.append right.settles_close).extend
    ((Settles.of_closed hl).append (.of_closed hr))

theorem joinGathered_keeps (kind : JoinKind) (condition : Option Expr) (rows : Array Binding)
    (hl : left.Kept pending strict) (hr : right.Kept pending strict) (state : RunState) :
    (joinGathered kind condition rows left right state).Keeps pending strict
      (right.close.2 ++ left.close.2) := by
  -- the right side is closed first, and owes nothing after that
  have hleft : Settles (left.close.2 ++ right.close.1.close.2) left.close.2 :=
    left.settles_close.extend (.of_closed hr)
  have hkeeps : (if kind = .inner ∧ rows.isEmpty then
      joinFinish kind condition left right.close.1 state
      else .quiet .skip (.join .active kind condition (.idle rows.toList) left right.close.1)
        state).Keeps pending strict (left.close.2 ++ right.close.1.close.2) := by
    split
    · exact joinFinish_keeps kind condition hl hr.close.1 state
    · exact .quiet ⟨hl, hr.close.1⟩ (.refl _) nofun
  exact hkeeps.after (right.settles_close.append hleft)

theorem joinRightStep_keeps (kind : JoinKind) (condition : Option Expr) (rows : Array Binding)
    (hl : left.Kept pending strict) (h : s.Keeps pending strict due) :
    (joinRightStep ctx kind condition rows left s).Keeps pending strict (due ++ left.close.2) := by
  have hstage : Encloses (Pipe.Kept pending strict)
      (.join .active kind condition (.gathering rows) left) left.close.2 :=
    fun q hq => ⟨⟨hl, hq⟩, List.perm_append_comm⟩
  refine h.feedOr left.settles_close hstage hstage (fun row q state hq => ?_) fun q state hq =>
    joinGathered_keeps kind condition rows hl hq state
  refine .quiet ⟨hl, hq⟩ List.perm_append_comm ?_
  split <;> nofun

theorem joinLeftStep_keeps (kind : JoinKind) (condition : Option Expr) (rows : List Binding)
    (hr : right.Kept pending strict) (h : s.Keeps pending strict due) :
    (joinLeftStep kind condition rows right s).Keeps pending strict (due ++ right.close.2) := by
  have hstage : Encloses (Pipe.Kept pending strict)
      (fun left => .join .active kind condition (.idle rows) left right) right.close.2 :=
    fun q hq => ⟨⟨hq, hr⟩, .refl _⟩
  unfold joinLeftStep Step.feed
  refine h.feedOr right.settles_close hstage hstage (fun row q state hq => ?_) fun q state hq =>
    joinFinish_keeps kind condition hq hr state
  exact .quiet ⟨hq, hr⟩ (.refl _) nofun

theorem joinTry_keeps (kind : JoinKind) (condition : Option Expr) (rows : List Binding)
    (row : Binding) (untried : List Binding) (matched : Bool) (hl : left.Kept pending strict)
    (hr : right.Kept pending strict) (state : RunState) :
    (joinTry kind condition rows row untried matched left right state).Keeps pending strict
      (left.close.2 ++ right.close.2) := by
  unfold joinTry
  split
  · refine .quiet ⟨hl, hr⟩ (.refl _) ?_
    split <;> nofun
  · dsimp only
    split
    · exact .quiet ⟨hl, hr⟩ (.refl _) nofun
    · split <;> exact .same ⟨hl, hr⟩ (.refl _) (.testEvents _ _) nofun

theorem probeStep_keeps {sub : Op} (hsub : pending sub) (condition : Option Expr)
    (g : ActiveGraph) (row : Binding) (matched : Bool) (hi : input.Kept pending strict)
    (h : s.Keeps pending strict due) :
    (probeStep sub condition g row matched input s).Keeps pending strict
      (due ++ input.close.2) := by
  have hstage (matched : Bool) : Encloses (Pipe.Kept pending strict)
      (fun probe => .probing sub condition g row matched probe input) input.close.2 :=
    fun q hq => ⟨⟨hsub, hq, hi⟩, List.perm_append_comm⟩
  refine h.feedOr input.settles_close (hstage matched) (hstage matched)
    (fun b q state hq => ?_) fun q state hq => ?_
  · unfold probeRow
    split <;> exact .same ⟨hsub, hq, hi⟩ List.perm_append_comm (.testEvents _ _) nofun
  · refine ⟨⟨hsub, hi⟩, q.settles_close.append input.settles_close, ?_⟩
    unfold probeEnd
    dsimp only
    split <;> nofun

theorem withinStep_keeps (var : Variable) {sub : Op} (hsub : pending sub)
    (known : Option (List Term)) (row : Binding) (candidates : List Term)
    (hi : input.Kept pending strict) (h : s.Keeps pending strict due) :
    (withinStep var sub known row candidates input s).Keeps pending strict
      (due ++ input.close.2) := by
  have hstage : Encloses (Pipe.Kept pending strict)
      (fun inner => .within var sub known row candidates inner input) input.close.2 :=
    fun q hq => ⟨⟨hsub, hq, hi⟩, List.perm_append_comm⟩
  unfold withinStep Step.feed
  exact h.feedOr input.settles_close hstage hstage
    (fun b q state hq => .quiet ⟨hsub, hq, hi⟩ List.perm_append_comm nofun)
    fun q state hq => ⟨⟨hsub, hi⟩, q.settles_close.append input.settles_close, nofun⟩

theorem concatFirstStep_keeps (hr : right.Kept pending strict) (h : s.Keeps pending strict due) :
    (concatFirstStep right s).Keeps pending strict (due ++ right.close.2) := by
  have hstage (dry : Bool) : Encloses (Pipe.Kept pending strict)
      (fun first => .concat .active dry first right) right.close.2 :=
    fun q hq => ⟨⟨hq, hr⟩, .refl _⟩
  unfold concatFirstStep Step.feed
  exact h.feedOr right.settles_close (hstage false) (hstage false)
    (fun b q state hq => .quiet ⟨hq, hr⟩ (.refl _) nofun)
    fun q state hq => .closing (hstage true) right.settles_close hq nofun

theorem concatRestStep_keeps (hl : left.Kept pending strict) (h : s.Keeps pending strict due) :
    (concatRestStep left s).Keeps pending strict (due ++ left.close.2) := by
  have hstage : Encloses (Pipe.Kept pending strict) (.concat .active true left) left.close.2 :=
    fun q hq => ⟨⟨hl, hq⟩, List.perm_append_comm⟩
  unfold concatRestStep Step.feed
  exact h.feedOr left.settles_close hstage hstage
    (fun b q state hq => .quiet ⟨hl, hq⟩ List.perm_append_comm nofun)
    fun q state hq => .quiet ⟨hl, hq⟩ List.perm_append_comm nofun

/-! ## Stages that compile -/

variable {ctx} (hctx : ctx.Compiles pending strict)

section Compiling

variable {sub : Op} (hsub : pending sub) {g : ActiveGraph} {row : Binding}

include hctx hsub

/-- A pipeline compiled beside an input is owed with the input. -/
theorem Context.Compiles.ok {p : Pipe}
    (h : (compile sub (ctx.inGraph g) (.input (.single row))).result = .ok p) (input : Pipe) :
    p.Kept pending strict ∧
      Settles ((compile sub (ctx.inGraph g) (.input (.single row))).events ++
        (input.close.2 ++ p.close.2)) input.close.2 := by
  obtain ⟨hkept, hsettles⟩ := hctx sub hsub g row
  have hboth := input.settles_close.append hsettles
  rw [Compiled.owed, h, List.append_nil] at hboth
  exact ⟨hkept p h, hboth.perm (List.perm_append_comm_assoc _ _ _) (.refl _)⟩

/-- After a failure nothing is owed but the input. -/
theorem Context.Compiles.error {e : ExecError}
    (h : (compile sub (ctx.inGraph g) (.input (.single row))).result = .error e) (input : Pipe) :
    Settles ((compile sub (ctx.inGraph g) (.input (.single row))).events ++ input.close.2)
      input.close.2 := by
  obtain ⟨-, hsettles⟩ := hctx sub hsub g row
  have hboth := input.settles_close.append hsettles
  rw [Compiled.owed, h, List.append_nil, List.append_nil] at hboth
  exact hboth.perm List.perm_append_comm (.refl _)

end Compiling

include hctx in
theorem optionalStep_keeps {sub : Op} (hsub : pending sub) (condition : Option Expr)
    (g : ActiveGraph) (h : s.Keeps pending strict due) :
    (optionalStep ctx sub condition g s).Keeps pending strict due := by
  have hstage (phase : Phase) :
      Encloses (Pipe.Kept pending strict) (.optional phase sub condition g) [] :=
    fun q hq => ⟨⟨hsub, hq⟩, by rw [List.append_nil]; exact .refl _⟩
  refine h.feedOne (hstage _) (hstage _) (fun row q state hq => ?_) fun q state hq =>
    .finish (hstage _) hq
  unfold optionalRow
  dsimp only
  split
  · next probe hresult =>
    obtain ⟨hkept, hsettles⟩ := hctx.ok hsub hresult q
    exact ⟨⟨hsub, hkept, hq⟩, hsettles, nofun⟩
  · next e hresult => exact ⟨⟨hsub, hq⟩, hctx.error hsub hresult q, nofun⟩

theorem graphsStep_keeps (var : Variable) {sub : Op} (hsub : pending sub)
    (known : Option (List Term)) (h : s.Keeps pending strict due) :
    (graphsStep ctx var sub known s).Keeps pending strict due := by
  have hstage (phase : Phase) (at' : GraphsState) :
      Encloses (Pipe.Kept pending strict) (.graphs phase var sub known at') [] :=
    fun q hq => ⟨⟨hsub, hq⟩, by rw [List.append_nil]; exact .refl _⟩
  refine h.feedOne (hstage _ _) (hstage _ _) (fun row q state hq => ?_) fun q state hq =>
    .finish (hstage _ _) hq
  have hasked := Settles.loadNames ctx known state
  unfold graphsRow
  split <;> rename_i hload <;> rw [hload] at hasked <;>
    exact .same ⟨hsub, hq⟩ (.refl _) hasked nofun

include hctx in
theorem graphsTry_keeps (var : Variable) {sub : Op} (hsub : pending sub)
    (known : Option (List Term)) (row : Binding) (candidates : List Term)
    (h : input.Kept pending strict) (state : RunState) :
    (graphsTry ctx var sub known row candidates input state).Keeps pending strict
      input.close.2 := by
  unfold graphsTry
  split
  · exact .quiet ⟨hsub, h⟩ (.refl _) nofun
  · next name candidates =>
    dsimp only
    split
    · exact .quiet ⟨hsub, h⟩ (.refl _) nofun
    · next seed hseed =>
      split
      · next inner hresult =>
        obtain ⟨hkept, hsettles⟩ := hctx.ok hsub hresult input
        exact ⟨⟨hsub, hkept, h⟩, hsettles, nofun⟩
      · next e hresult => exact ⟨⟨hsub, h⟩, hctx.error hsub hresult input, nofun⟩

end Stages

/-! ## Scopes -/

section Scopes

variable {shared : SharedRows} {input body : Pipe} {s t : Step}

/-- A scope takes in the releases of a step of its body. -/
theorem shareSettle_keeps (hp : (Pipe.share shared input body).Kept pending strict)
    (h : s.Keeps pending strict body.close.2) :
    (shareSettle shared input s).Keeps pending strict (Pipe.share shared input body).close.2 := by
  obtain ⟨⟨hcount, hclosed⟩, hi, hb⟩ := id hp
  obtain ⟨hic, his, -⟩ := hi.close
  have hreleases := h.settles.releases
  rw [releases_append, h.kept.close.2.2, hb.close.2.2, ← hcount] at hreleases
  obtain ⟨shared', input', more, hsettle, hopen, hshut, hi', hmore⟩ :=
    shared.clear.settle_conserves s.events hi hic his hclosed
      (show releases s.events ≤ shared.openReaders by omega)
  replace hopen : shared'.openReaders = shared.openReaders - releases s.events := hopen
  have hkept : (Pipe.share shared' input' s.pipe).Kept pending strict :=
    ⟨⟨by omega, hshut⟩, hi', h.kept⟩
  unfold shareSettle
  simp only [hsettle]
  refine ⟨hkept, ?_, ?_⟩
  · have hsettles := h.settles.unreleased.append (shared.settles_inputDue input)
    exact hsettles.perm (hkept.share_owes hmore) hp.close_share.symm
  · split
    · nofun
    · next hs => exact fun hawait => absurd hawait hs

/-- What a scope owes beyond a step of its body without releases. -/
theorem share_settles (hp : (Pipe.share shared input body).Kept pending strict)
    (h : s.Keeps pending strict body.close.2) (hnone : releases s.events = 0) :
    Settles (s.events ++ (unreleased s.pipe.close.2 ++ shared.inputDue input))
      (Pipe.share shared input body).close.2 := by
  have hsettles := h.settles.unreleased.append (shared.settles_inputDue input)
  refine hsettles.perm ?_ hp.close_share.symm
  rw [unreleased_append, unreleased_eq_self hnone, List.append_assoc]

/-- The open readers of a scope are those of its body, also after a step without releases. -/
theorem share_readers (hp : (Pipe.share shared input body).Kept pending strict)
    (h : s.Keeps pending strict body.close.2) (hnone : releases s.events = 0) :
    shared.openReaders = s.pipe.readers := by
  obtain ⟨⟨hcount, -⟩, -, hb⟩ := hp
  have hreleases := h.settles.releases
  rw [releases_append, h.kept.close.2.2, hb.close.2.2, ← hcount] at hreleases
  omega

theorem absorb_openReaders (shared : SharedRows) (signal : Signal) :
    (shared.absorb signal).openReaders = shared.openReaders := by
  cases signal <;> rfl

/-- A scope that reads on for its body keeps the books of its input. -/
theorem shareRead_keeps (hp : (Pipe.share shared input body).Kept pending strict)
    (h : s.Keeps pending strict body.close.2) (hnone : releases s.events = 0)
    (hawait : s.signal = .await) (ht : t.Keeps pending strict input.close.2) :
    (shareRead shared.clear s.pipe s.events t).Keeps pending strict
      (Pipe.share shared input body).close.2 := by
  have hreaders := share_readers hp h hnone
  have hpos : shared.openReaders ≠ 0 := Nat.pos_iff_ne_zero.1 (hreaders ▸ h.waits hawait)
  have hopen : (shared.clear.absorb t.signal).openReaders = shared.openReaders :=
    absorb_openReaders shared.clear t.signal
  have hkept : (Pipe.share (shared.clear.absorb t.signal) t.pipe s.pipe).Kept pending strict :=
    ⟨⟨hopen.trans hreaders, fun hzero => absurd (hopen.symm.trans hzero) hpos⟩, ht.kept, h.kept⟩
  refine ⟨hkept, ?_, fun hs => ?_⟩
  · have hbody := share_settles hp h hnone
    have hdone := hkept.close_share
    rw [SharedRows.inputDue, if_neg hpos, ← List.append_assoc] at hbody
    rw [SharedRows.inputDue, if_neg (hopen.trans_ne hpos)] at hdone
    refine (hbody.trans ht.settles).perm ?_ (.refl _)
    show _ ~ (s.events ++ t.events) ++ (Pipe.share (shared.clear.absorb t.signal) t.pipe
      s.pipe).close.2
    rw [List.append_assoc, List.append_assoc]
    refine List.Perm.append_left s.events ?_
    exact (List.perm_append_comm_assoc _ _ _).trans (hdone.symm.append_left _)
  · refine ht.waits (Classical.byContradiction fun hne => ?_)
    rw [shareRead] at hs
    simp only [if_neg hne] at hs
    cases hs

end Scopes

/-! ## All stages -/

theorem replayStep_keeps {scope : Option SharedRows} {phase : Phase} {position : Nat}
    {state : RunState} (hd : phase.isDone = false) :
    (replayStep scope phase position state).Keeps pending strict
      (Pipe.replay phase position).close.2 := by
  have hopen : phase = .created ∨ phase = .active := by cases phase <;> simp_all [Phase.isDone]
  unfold replayStep
  have hwaiting (state : RunState) : (Step.quiet .await (.replay phase.activate position)
      state).Keeps pending strict (Pipe.replay phase position).close.2 := by
    refine ⟨trivial, ?_, fun _ => ?_⟩
    · rcases hopen with rfl | rfl <;> exact Pipe.settles_close _
    · rcases hopen with rfl | rfl <;> exact Nat.one_pos
  rcases hopen with rfl | rfl
  all_goals
    split
    · exact hwaiting state
    · split
      · exact .quiet trivial (.refl _) nofun
      · split
        · exact .quiet trivial (.refl _) nofun
        · split
          · exact .quiet trivial (.refl _) nofun
          · exact hwaiting state

/-- **Steps keep the books.** -/
theorem Pipe.step_keeps {ctx : Context} (hctx : ctx.Compiles pending strict) {p : Pipe}
    (hp : p.Kept pending strict) (scope : Option SharedRows) (state : RunState) :
    (p.step ctx scope state).Keeps pending strict p.close.2 := by
  -- the equation of the step, then the stage around a step of its input
  induction p, state using step_induction generalizing scope with
  | at_hand h =>
    rw [h.step_eq]
    cases h <;> exact .quiet hp (.refl _) nofun
  | @tracked id calling input state ih =>
    have hstage (calling : Bool) : Encloses (Kept pending strict) (.tracked id calling)
        [.closed id] := fun q hq => ⟨hq, (List.perm_append_singleton _ _).symm⟩
    have hclosed : Settles [.closed id] [.closed id] :=
      ⟨rfl, fun name => Nat.le_of_eq (Nat.zero_add _)⟩
    have hpulled : Settles [.pulled id] [] := .of_none rfl fun _ => rfl
    have hinput := ((ih hp scope).around (hstage
      (input.step ctx scope state).signal.isPending) hclosed).perm (List.perm_append_singleton _ _)
    rw [step_tracked]
    cases calling with
    | true => exact hinput
    | false => exact hinput.after (hpulled.append (Pipe.settles_close (.tracked id true input)))
  | replay hd =>
    rw [step_replay hd]
    exact replayStep_keeps hd
  | @share shared input body state ihi ihb =>
    have hbody := ihb hp.2.2 (some shared)
    rw [step_share]
    split
    · exact shareSettle_keeps hp hbody
    · next hnone =>
      have hzero : releases (body.step ctx (some shared) state).events = 0 :=
        Nat.eq_zero_of_not_pos fun h => hnone (releases_pos_iff.1 h)
      split
      · next hawait => exact shareRead_keeps hp hbody hzero hawait (ihi _ hp.2.1 scope)
      · next hawait =>
        have hkept : (Pipe.share shared.clear input
            (body.step ctx (some shared) state).pipe).Kept pending strict :=
          ⟨⟨share_readers hp hbody hzero, hp.1.2⟩, hp.2.1, hbody.kept⟩
        exact ⟨hkept, (share_settles hp hbody hzero).perm (hkept.close_share.symm.append_left _)
          (.refl _), fun h => absurd h hawait⟩
  | @scan_reading _ pattern slot row items input _ hd =>
    have hi : input.Kept pending strict := hp
    rw [step_scan_reading hd]
    exact scanItem_keeps ctx pattern slot row items hi _
  | scan hd ha ih =>
    rw [step_scan hd ha]
    exact scanStep_keeps ctx _ _ (ih hp scope)
  | filter hd ih =>
    rw [step_filter hd]
    exact filterStep_keeps ctx _ (ih hp scope)
  | join_gathering hd ih =>
    rw [step_join_gathering hd]
    exact (joinRightStep_keeps ctx _ _ _ hp.1 (ih hp.2 scope)).perm List.perm_append_comm
  | join_idle hd ih =>
    rw [step_join_idle hd]
    exact joinLeftStep_keeps _ _ _ hp.2 (ih hp.1 scope)
  | join_trying hd =>
    rw [step_join_trying hd]
    exact joinTry_keeps _ _ _ _ _ _ hp.1 hp.2 _
  | optional hd ih =>
    rw [step_optional hd]
    exact optionalStep_keeps hctx hp.1 _ _ (ih hp.2 scope)
  | probing ih =>
    rw [step_probing]
    exact (probeStep_keeps hp.1 _ _ _ _ hp.2.2 (ih hp.2.1 scope)).perm List.perm_append_comm
  | graphs_trying hd =>
    rw [step_graphs_trying hd]
    exact graphsTry_keeps hctx _ hp.1 _ _ _ hp.2 _
  | graphs hd ha ih =>
    rw [step_graphs hd ha]
    exact graphsStep_keeps _ hp.1 _ (ih hp.2 scope)
  | within ih =>
    rw [step_within]
    exact (withinStep_keeps _ hp.1 _ _ _ hp.2.2 (ih hp.2.1 scope)).perm List.perm_append_comm
  | names hd ih =>
    rw [step_names_nil hd]
    exact namesStep_keeps ctx _ _ (ih hp scope)
  | @table_nil _ _ input _ hd =>
    have hi : input.Kept pending strict := hp
    rw [step_table_nil hd]
    exact .finish (encloses_input (fun _ => rfl) fun _ => rfl) hi
  | @table_trying _ rows row untried input _ hd hrows =>
    have hi : input.Kept pending strict := hp
    rw [step_table_trying hd hrows]
    exact tableTry_keeps rows row untried hi _
  | table_idle hd hrows ih =>
    rw [step_table_idle hd hrows]
    exact tableStep_keeps _ (ih hp scope)
  | order hd ih =>
    rw [step_order_gathering hd]
    exact orderStep_keeps ctx _ _ (ih hp scope)
  | project hd ih =>
    rw [step_project hd]
    exact projectStep_keeps _ (ih hp scope)
  | distinct hd ih =>
    rw [step_distinct hd]
    exact distinctStep_keeps _ _ (ih hp scope)
  | @slice_zero _ _ input _ hd =>
    have hi : input.Kept pending strict := hp
    rw [step_slice_zero hd]
    exact .finish (encloses_input (fun _ => rfl) fun _ => rfl) hi
  | slice hd hzero ih =>
    rw [step_slice hd hzero]
    exact sliceStep_keeps _ _ (ih hp scope)
  | concat_first hd ih =>
    rw [step_concat_first hd]
    exact concatFirstStep_keeps hp.2 (ih hp.1 scope)
  | concat_rest hd ih =>
    rw [step_concat_rest hd]
    exact (concatRestStep_keeps hp.1 (ih hp.2 scope)).perm List.perm_append_comm

end Keeping

/-! ## Careful realizations and plain operators -/

/-- With careful realizations, what is compiled in the middle of a run is tidy. -/
theorem Context.compiles_careful {ctx : Context} (h : ctx.extensions.Careful) :
    ctx.Compiles (fun _ => True) True := by
  intro sub _ g row
  have hbuilds := compile_builds sub (ctx.inGraph g) h (.input (.single row)) trivial
  exact ⟨hbuilds.tidy, hbuilds.settles⟩

theorem Pipe.counted_iff_kept {p : Pipe} : p.Counted ↔ p.Kept Op.Plain False := by
  induction p with
  | bindings | script | replay | concatEnd => exact .rfl
  | share shared input body ihi ihb =>
    refine and_congr (and_congr .rfl (imp_congr .rfl ?_)) (and_congr ihi ihb)
    exact ⟨fun h => ⟨h, False.elim⟩, fun h => h.readers⟩
  | tracked _ _ _ ih | scan _ _ _ _ _ ih | filter _ _ _ ih | names _ _ _ _ _ ih
  | table _ _ _ _ ih | order _ _ _ _ ih | project _ _ _ ih | distinct _ _ _ _ ih
  | slice _ _ _ _ ih => exact ih
  | optional _ _ _ _ _ ih | graphs _ _ _ _ _ _ ih => exact and_congr .rfl ih
  | join _ _ _ _ _ _ ihl ihr | concat _ _ _ _ ihl ihr => exact and_congr ihl ihr
  | probing _ _ _ _ _ _ _ ihp ihi | within _ _ _ _ _ _ _ ihp ihi =>
    exact and_congr .rfl (and_congr ihp ihi)

/-- Plain operators set nothing off when they are compiled. -/
theorem Context.compiles_plain (ctx : Context) : ctx.Compiles Op.Plain False := by
  intro sub hsub g row
  obtain ⟨hcounted, hreaders⟩ := Op.pipe_counted hsub ctx g (.input (.single row)) trivial
  have hkept := Pipe.counted_iff_kept.1 hcounted
  rw [compile_plain hsub]
  refine ⟨fun p hp => ?_, .of_none ?_ fun id => Pipe.announcements_close id _⟩
  · cases hp
    exact hkept
  · exact hkept.close.2.2.trans hreaders

/-- A step leaves every scope with the right count. -/
theorem Pipe.step_counted (ctx : Context) {p : Pipe} (hp : p.Counted)
    (scope : Option SharedRows) (state : RunState) : (p.step ctx scope state).pipe.Counted :=
  counted_iff_kept.2 (step_keeps ctx.compiles_plain (counted_iff_kept.1 hp) scope state).kept

/-- A step releases as many readers as it loses. -/
theorem Pipe.step_balance (ctx : Context) {p : Pipe} (hp : p.Counted)
    (scope : Option SharedRows) (state : RunState) :
    releases (p.step ctx scope state).events + (p.step ctx scope state).pipe.readers =
      p.readers := by
  have hkept := counted_iff_kept.1 hp
  have hkeeps := step_keeps ctx.compiles_plain hkept scope state
  have hreleases := hkeeps.settles.releases
  rwa [releases_append, hkeeps.kept.close.2.2, hkept.close.2.2] at hreleases

/-! ## Scopes that make no difference -/

/-- **A pipeline without open readers takes the same step in every scope.** -/
theorem Pipe.step_unscoped (ctx : Context) {p : Pipe} (hp : p.readers = 0)
    (scope scope' : Option SharedRows) (state : RunState) :
    p.step ctx scope state = p.step ctx scope' state := by
  induction p, state using step_induction with
  | at_hand h => rw [h.step_eq, h.step_eq]
  | @replay phase position state hd =>
    cases phase with
    | closed => cases hd
    | _ => cases hp
  | tracked ih => rw [step_tracked, step_tracked, ih hp]
  | share ihi ihb => rw [step_share, step_share, ihi _ hp]
  | scan_reading hd => rw [step_scan_reading hd, step_scan_reading hd]
  | scan hd ha ih => rw [step_scan hd ha, step_scan hd ha, ih hp]
  | filter hd ih => rw [step_filter hd, step_filter hd, ih hp]
  | join_gathering hd ih =>
    rw [step_join_gathering hd, step_join_gathering hd, ih (Nat.add_eq_zero_iff.1 hp).2]
  | join_idle hd ih => rw [step_join_idle hd, step_join_idle hd, ih (Nat.add_eq_zero_iff.1 hp).1]
  | join_trying hd => rw [step_join_trying hd, step_join_trying hd]
  | optional hd ih => rw [step_optional hd, step_optional hd, ih hp]
  | probing ih => rw [step_probing, step_probing, ih (Nat.add_eq_zero_iff.1 hp).1]
  | graphs_trying hd => rw [step_graphs_trying hd, step_graphs_trying hd]
  | graphs hd ha ih => rw [step_graphs hd ha, step_graphs hd ha, ih hp]
  | within ih => rw [step_within, step_within, ih (Nat.add_eq_zero_iff.1 hp).1]
  | names hd ih => rw [step_names_nil hd, step_names_nil hd, ih hp]
  | table_nil hd => rw [step_table_nil hd, step_table_nil hd]
  | table_trying hd hrows => rw [step_table_trying hd hrows, step_table_trying hd hrows]
  | table_idle hd hrows ih => rw [step_table_idle hd hrows, step_table_idle hd hrows, ih hp]
  | order hd ih => rw [step_order_gathering hd, step_order_gathering hd, ih hp]
  | project hd ih => rw [step_project hd, step_project hd, ih hp]
  | distinct hd ih => rw [step_distinct hd, step_distinct hd, ih hp]
  | slice_zero hd => rw [step_slice_zero hd, step_slice_zero hd]
  | slice hd hzero ih => rw [step_slice hd hzero, step_slice hd hzero, ih hp]
  | concat_first hd ih =>
    rw [step_concat_first hd, step_concat_first hd, ih (Nat.add_eq_zero_iff.1 hp).1]
  | concat_rest hd ih =>
    rw [step_concat_rest hd, step_concat_rest hd, ih (Nat.add_eq_zero_iff.1 hp).2]

end TripleQuery
