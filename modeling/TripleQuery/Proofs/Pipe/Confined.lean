import TripleQuery.Proofs.Pipe.Compile
import TripleQuery.Proofs.Pipe.Lockstep

/-!
# Pipelines that stay in some graphs

An operator whose scans look at graphs by constant names stays in these graphs and the active one
(`Op.StaysIn`), and so does its pipeline (`Op.pipe_staysIn`). Such a pipeline takes the same steps
over all datasets that agree on the graphs, and stays in them (`Pipe.StaysIn.step`): a subtree that
is compiled in the middle of a run is compiled for the graph that was active where it stands.
-/

namespace TripleQuery

/-! ## Staying in graphs -/

/-- The name of the active graph, none for the default graph. -/
def ActiveGraph.name? : ActiveGraph → Option Term
  | .default => none
  | .named name => some name

/-- A scan of the target looks at one of the graphs. -/
def GraphTarget.In (graphs : Option Term → Prop) : GraphTarget → Prop
  | .default => graphs none
  | .named name => graphs (some name)
  | .anyNamed => False

/-- Scans in the slot look at one of the graphs, whatever the row. -/
def GraphSlot.In (graphs : Option Term → Prop) : GraphSlot → Prop
  | .default => graphs none
  | .named name => graphs (some name)
  | .var _ => False

/-- All patterns of the operator are matched in the graphs, if it is compiled for an active graph,
and the graph names are not asked for. -/
def Op.StaysIn (graphs : Option Term → Prop) : Op → ActiveGraph → Prop
  | .bgp _, g => graphs g.name?
  | .quadPattern name _, _ => (GraphSlot.ofPattern name).In graphs
  | .table _, _ => True
  | .datasetNames _, _ | .extension _, _ | .graph (.var _) _, _ => False
  | .join l r, g | .leftJoin l r _, g | .union l r, g => l.StaysIn graphs g ∧ r.StaysIn graphs g
  | .graph (.term name) s, _ => s.StaysIn graphs (.named name)
  | .filter _ s, g | .order _ s, g | .project _ s, g | .distinct s, g | .slice _ _ s, g =>
    s.StaysIn graphs g

/-- All scans of the pipeline look at the graphs, those of subtrees yet to be compiled included, and
the graph names are not asked for. -/
def Pipe.StaysIn (graphs : Option Term → Prop) : Pipe → Prop
  | .bindings .. | .script .. | .replay .. | .concatEnd _ => True
  | .graphs .. | .within .. | .names .. => False
  | .scan _ _ slot _ input => slot.In graphs ∧ input.StaysIn graphs
  | .optional _ sub _ g input => sub.StaysIn graphs g ∧ input.StaysIn graphs
  | .probing sub _ g _ _ probe input =>
    sub.StaysIn graphs g ∧ probe.StaysIn graphs ∧ input.StaysIn graphs
  | .tracked _ _ input | .filter _ _ input | .table _ _ _ input | .order _ _ _ input
  | .project _ _ input | .distinct _ _ _ input | .slice _ _ _ input => input.StaysIn graphs
  | .share _ p q | .join _ _ _ _ p q | .concat _ _ p q => p.StaysIn graphs ∧ q.StaysIn graphs

variable {graphs : Option Term → Prop}

theorem GraphSlot.In.target {slot : GraphSlot} (h : slot.In graphs) (row : Binding) :
    (slot.target row).In graphs := by
  cases slot with
  | default | named _ => exact h
  | var v => cases h

theorem Op.StaysIn.plain {op : Op} {g : ActiveGraph} (h : op.StaysIn graphs g) : op.Plain := by
  induction op generalizing g with
  | bgp | quadPattern | table => trivial
  | datasetNames | extension => cases h
  | join _ _ ihl ihr | leftJoin _ _ _ ihl ihr | union _ _ ihl ihr => exact ⟨ihl h.1, ihr h.2⟩
  | filter _ _ ih | order _ _ ih | project _ _ ih | distinct _ ih | slice _ _ _ ih => exact ih h
  | graph name _ ih =>
    cases name with
    | term name => exact ih h
    | var v => cases h

/-! ## Compiling -/

/-- The seed is within the graphs. -/
def Seed.StaysIn (graphs : Option Term → Prop) (seed : Seed) : Prop := seed.toPipe.StaysIn graphs

theorem Seed.joined_staysIn {seed : Seed} (h : seed.StaysIn graphs) {own : Pipe}
    (ho : own.StaysIn graphs) : (seed.joined own).StaysIn graphs := by
  cases seed with
  | identity => exact ho
  | input p => exact ⟨h, ho⟩

theorem scanChain_staysIn {slot : GraphSlot} (hslot : slot.In graphs)
    (patterns : List TriplePattern) {condition : Option Expr} {bound : List Variable} {p : Pipe}
    (hp : p.StaysIn graphs) : (scanChain slot condition bound patterns p).StaysIn graphs := by
  induction patterns generalizing condition bound p with
  | nil => cases condition <;> exact hp
  | cons pattern patterns ih =>
    have hscan : (Pipe.scan .created pattern slot .idle p).StaysIn graphs := ⟨hslot, hp⟩
    cases condition with
    | none => exact ih hscan
    | some e =>
      rw [scanChain]
      split <;> exact ih hscan

theorem ofActive_in {g : ActiveGraph} (h : graphs g.name?) : (GraphSlot.ofActive g).In graphs := by
  cases g <;> exact h

theorem Op.filtered_staysIn (ctx : Context) (e : Expr) {g : ActiveGraph} {sub : Op}
    (hsub : sub.StaysIn graphs g) {seed : Seed} (h : seed.StaysIn graphs) {own : Pipe}
    (ho : own.StaysIn graphs) : (sub.filtered ctx e g seed own).StaysIn graphs := by
  unfold filtered
  split
  · next slot patterns hpatterns _ =>
    refine scanChain_staysIn ?_ patterns h
    cases sub with
    | bgp =>
      cases hpatterns
      exact ofActive_in hsub
    | quadPattern =>
      cases hpatterns
      exact hsub
    | _ => cases hpatterns
  · exact ho

/-- The pipeline of an operator stays in the graphs of the operator. -/
theorem Op.pipe_staysIn (ctx : Context) {op : Op} {g : ActiveGraph} (hop : op.StaysIn graphs g)
    {seed : Seed} (h : seed.StaysIn graphs) : (op.pipe ctx g seed).StaysIn graphs := by
  have hidentity : Seed.identity.StaysIn graphs := trivial
  induction op generalizing g seed with
  | bgp patterns => exact scanChain_staysIn (ofActive_in hop) patterns h
  | quadPattern name patterns => exact scanChain_staysIn hop patterns h
  | datasetNames | extension => cases hop
  | table t => exact h
  | join l r ihl ihr => exact ihr hop.2 (ihl hop.1 h)
  | leftJoin l r condition ihl ihr =>
    refine Seed.joined_staysIn h ?_
    split
    · exact ⟨hop.2, ihl hop.1 hidentity⟩
    · exact ⟨ihl hop.1 hidentity, ihr hop.2 hidentity⟩
  | union l r ihl ihr =>
    cases seed with
    | identity => exact ⟨ihl hop.1 h, ihr hop.2 h, trivial⟩
    | input p => exact ⟨h, ihl hop.1 trivial, ihr hop.2 trivial, trivial⟩
  | filter e sub ih =>
    rw [pipe]
    split
    · exact sub.filtered_staysIn ctx e hop h (ih hop h)
    · exact Seed.joined_staysIn h
        (sub.filtered_staysIn ctx e hop hidentity (ih hop hidentity))
  | graph name sub ih =>
    cases name with
    | term name => exact ih hop h
    | var v => cases hop
  | order _ sub ih | project _ sub ih | distinct sub ih | slice _ _ sub ih =>
    exact Seed.joined_staysIn h (ih hop hidentity)

/-! ## Closing -/

theorem settle_staysIn {shared : SharedRows} {input : Pipe} (hi : input.StaysIn graphs)
    {close : Unit → Pipe × List Event} (hc : (close ()).1.StaysIn graphs) (events : List Event) :
    (shared.settle input close events).2.1.StaysIn graphs := by
  induction events generalizing shared input with
  | nil => exact hi
  | cons e rest ih =>
    rw [SharedRows.settle]
    split
    · split
      · exact ih hc
      · exact ih hi
    · exact ih hi

theorem Pipe.StaysIn.close {p : Pipe} (h : p.StaysIn graphs) : p.close.1.StaysIn graphs := by
  induction p with
  | bindings | script | replay | concatEnd => trivial
  | graphs | within | names => cases h
  | tracked _ _ _ ih | filter _ _ _ ih | table _ _ _ _ ih | order _ _ _ _ ih | project _ _ _ ih
  | distinct _ _ _ _ ih | slice _ _ _ _ ih => exact ih h
  | scan _ _ _ _ _ ih | optional _ _ _ _ _ ih => exact ⟨h.1, ih h.2⟩
  | probing _ _ _ _ _ _ _ _ ih => exact ⟨h.1, ih h.2.2⟩
  | share _ _ _ ihi ihb => exact ⟨settle_staysIn h.1 (ihi h.1) _, ihb h.2⟩
  | join _ _ _ _ _ _ ihl ihr | concat _ _ _ _ ihl ihr => exact ⟨ihl h.1, ihr h.2⟩

/-! ## Steps -/

/-- Two datasets answer scans of the graphs alike. -/
def Dataset.AgreeIn (graphs : Option Term → Prop) (d d' : Dataset) : Prop :=
  ∀ k r, r.target.In graphs → d'.scan k r = d.scan k r

/-- Two steps are the same, and leave a pipeline that stays in the graphs. -/
structure Step.Confined (graphs : Option Term → Prop) (s s' : Step) : Prop where
  same : s' = s
  staysIn : s.pipe.StaysIn graphs

namespace Step.Confined

variable {s s' : Step}

theorem of_staysIn {s : Step} (h : s.pipe.StaysIn graphs) : s.Confined graphs s := ⟨rfl, h⟩

theorem after (h : s.Confined graphs s') (events : List Event) :
    (s.after events).Confined graphs (s'.after events) :=
  ⟨congrArg (Step.after events) h.same, h.staysIn⟩

/-- A stage over the same step takes the same step, if it does so with a row and at the end. -/
theorem feedOr (h : s.Confined graphs s') {hold drop : Pipe → Pipe}
    {onRow onRow' : Binding → Pipe → RunState → Step} {onEnd : Pipe → RunState → Step}
    (hhold : ∀ q, q.StaysIn graphs → (hold q).StaysIn graphs)
    (hdrop : ∀ q, q.StaysIn graphs → (drop q).StaysIn graphs)
    (hrow : ∀ b q state, q.StaysIn graphs →
      (onRow b q state).Confined graphs (onRow' b q state))
    (hend : ∀ q state, q.StaysIn graphs → (onEnd q state).pipe.StaysIn graphs) :
    (s.feedOr hold drop onRow onEnd).Confined graphs (s'.feedOr hold drop onRow' onEnd) := by
  obtain ⟨rfl, hp⟩ := h
  obtain ⟨signal, p, events, state⟩ := s'
  cases signal with
  | yield b => exact (hrow b p state hp).after events
  | done => exact of_staysIn (hend p state hp)
  | fail e => exact of_staysIn (hdrop p hp)
  | skip | await => exact of_staysIn (hhold p hp)

end Step.Confined

section Stages

variable {ctx : Context} {d : Dataset} {s s' : Step} {input left right : Pipe} {state : RunState}

/-- Scans within the graphs ask what both datasets answer alike. -/
theorem scanStep_confined (hd : ctx.dataset.AgreeIn graphs d) (pattern : TriplePattern)
    {slot : GraphSlot} (hslot : slot.In graphs) (h : s.Confined graphs s') :
    (scanStep ctx pattern slot s).Confined graphs (scanStep (ctx.given d) pattern slot s') := by
  refine h.feedOr (fun _ hq => ⟨hslot, hq⟩) (fun _ hq => ⟨hslot, hq⟩) (fun row q state hq => ?_)
    fun _ _ hq => ⟨hslot, hq.close⟩
  have hopen : (ctx.given d).openScan (.ofPattern pattern slot row) state =
      ctx.openScan (.ofPattern pattern slot row) state := by
    unfold Context.openScan
    rw [Context.given_dataset, hd _ _ (hslot.target row)]
  unfold scanRow
  dsimp only
  rw [hopen]
  split <;> exact .of_staysIn ⟨hslot, hq⟩

theorem scanItem_staysIn (pattern : TriplePattern) {slot : GraphSlot} (hslot : slot.In graphs)
    (row : Binding) (items : List CursorItem) (hi : input.StaysIn graphs) :
    (scanItem ctx pattern slot row items input state).pipe.StaysIn graphs := by
  unfold scanItem
  split <;> exact ⟨hslot, hi⟩

theorem filterStep_confined (e : Expr) (h : s.Confined graphs s') :
    (filterStep ctx e s).Confined graphs (filterStep (ctx.given d) e s') := by
  unfold filterStep Step.feed
  refine h.feedOr (fun _ hq => hq) (fun _ hq => hq) (fun row q state hq => ?_)
    fun _ _ hq => hq.close
  unfold filterRow
  split <;> exact .of_staysIn hq

theorem projectStep_confined (vars : List Variable) (h : s.Confined graphs s') :
    (projectStep vars s).Confined graphs (projectStep vars s') := by
  unfold projectStep Step.feed
  exact h.feedOr (fun _ hq => hq) (fun _ hq => hq) (fun _ _ _ hq => .of_staysIn hq)
    fun _ _ hq => hq.close

theorem tableStep_confined (rows : List Binding) (h : s.Confined graphs s') :
    (tableStep rows s).Confined graphs (tableStep rows s') := by
  unfold tableStep Step.feed
  exact h.feedOr (fun _ hq => hq) (fun _ hq => hq) (fun _ _ _ hq => .of_staysIn hq)
    fun _ _ hq => hq.close

theorem tableTry_staysIn (rows : List Binding) (row : Binding) (untried : List Binding)
    (hi : input.StaysIn graphs) : (tableTry rows row untried input state).pipe.StaysIn graphs := by
  unfold tableTry
  split <;> exact hi

theorem sliceStep_confined (skip : Nat) (remaining : Option Nat) (h : s.Confined graphs s') :
    (sliceStep skip remaining s).Confined graphs (sliceStep skip remaining s') := by
  unfold sliceStep Step.feed
  refine h.feedOr (fun _ hq => hq) (fun _ hq => hq) (fun row q state hq => .of_staysIn ?_)
    fun _ _ hq => hq.close
  unfold sliceRow
  split
  · exact hq
  · split
    · exact hq.close
    · exact hq
  · exact hq

theorem distinctStep_confined (seen : List Binding) (limit : Nat) (h : s.Confined graphs s') :
    (distinctStep seen limit s).Confined graphs (distinctStep seen limit s') := by
  unfold distinctStep Step.feed
  refine h.feedOr (fun _ hq => hq) (fun _ hq => hq) (fun row q state hq => .of_staysIn ?_)
    fun _ _ hq => hq.close
  unfold distinctRow
  split <;> exact hq

theorem orderStep_confined (keys : List SortKey) (keyed : Array (List (Option Term) × Binding))
    (h : s.Confined graphs s') :
    (orderStep ctx keys keyed s).Confined graphs (orderStep (ctx.given d) keys keyed s') := by
  unfold orderStep
  refine h.feedOr (fun _ hq => hq) (fun _ hq => hq) (fun row q state hq => .of_staysIn ?_)
    fun _ _ hq => hq.close
  unfold orderRow
  split
  · exact hq
  · dsimp only
    split <;> exact hq

theorem joinRightStep_confined (kind : JoinKind) (condition : Option Expr) (rows : Array Binding)
    (hl : left.StaysIn graphs) (h : s.Confined graphs s') :
    (joinRightStep ctx kind condition rows left s).Confined graphs
      (joinRightStep (ctx.given d) kind condition rows left s') := by
  unfold joinRightStep Step.feed
  refine h.feedOr (fun _ hq => ⟨hl, hq⟩) (fun _ hq => ⟨hl, hq⟩)
    (fun _ _ _ hq => .of_staysIn ⟨hl, hq⟩) fun q state hq => ?_
  unfold joinGathered
  split
  · exact ⟨hl.close, hq.close.close⟩
  · exact ⟨hl, hq.close⟩

theorem joinLeftStep_confined (kind : JoinKind) (condition : Option Expr) (rows : List Binding)
    (hr : right.StaysIn graphs) (h : s.Confined graphs s') :
    (joinLeftStep kind condition rows right s).Confined graphs
      (joinLeftStep kind condition rows right s') := by
  unfold joinLeftStep Step.feed
  exact h.feedOr (fun _ hq => ⟨hq, hr⟩) (fun _ hq => ⟨hq, hr⟩)
    (fun _ _ _ hq => .of_staysIn ⟨hq, hr⟩) fun _ _ hq => ⟨hq.close, hr.close⟩

theorem joinTry_staysIn (kind : JoinKind) (condition : Option Expr) (rows : List Binding)
    (row : Binding) (untried : List Binding) (matched : Bool) (hl : left.StaysIn graphs)
    (hr : right.StaysIn graphs) :
    (joinTry kind condition rows row untried matched left right state).pipe.StaysIn graphs := by
  unfold joinTry
  split
  · exact ⟨hl, hr⟩
  · dsimp only
    split
    · exact ⟨hl, hr⟩
    · split <;> exact ⟨hl, hr⟩

/-- A right side that is compiled for a row is compiled for the graph of the join. -/
theorem optionalStep_confined {sub : Op} {g : ActiveGraph} (hsub : sub.StaysIn graphs g)
    (condition : Option Expr) (h : s.Confined graphs s') :
    (optionalStep ctx sub condition g s).Confined graphs
      (optionalStep (ctx.given d) sub condition g s') := by
  unfold optionalStep Step.feed
  refine h.feedOr (fun _ hq => ⟨hsub, hq⟩) (fun _ hq => ⟨hsub, hq⟩) (fun row q state hq => ?_)
    fun _ _ hq => ⟨hsub, hq.close⟩
  have hprobe : (sub.pipe ctx g (.input (.single row))).StaysIn graphs :=
    sub.pipe_staysIn ctx hsub trivial
  have hsame : optionalRow (ctx.given d) sub condition g row q state =
      optionalRow ctx sub condition g row q state := by
    unfold optionalRow
    rw [Context.given_inGraph, compile_given]
  rw [hsame, optionalRow_plain hsub.plain]
  exact .of_staysIn ⟨hsub, hprobe, hq⟩

theorem probeStep_confined {sub : Op} {g : ActiveGraph} (hsub : sub.StaysIn graphs g)
    (condition : Option Expr) (row : Binding) (matched : Bool) (hi : input.StaysIn graphs)
    (h : s.Confined graphs s') :
    (probeStep sub condition g row matched input s).Confined graphs
      (probeStep sub condition g row matched input s') := by
  unfold probeStep Step.feed
  refine h.feedOr (fun _ hq => ⟨hsub, hq, hi⟩) (fun _ hq => ⟨hsub, hq, hi⟩)
    (fun b q state hq => .of_staysIn ?_) fun _ _ _ => ⟨hsub, hi⟩
  unfold probeRow
  split <;> exact ⟨hsub, hq, hi⟩

theorem concatFirstStep_confined (hr : right.StaysIn graphs) (h : s.Confined graphs s') :
    (concatFirstStep right s).Confined graphs (concatFirstStep right s') := by
  unfold concatFirstStep Step.feed
  exact h.feedOr (fun _ hq => ⟨hq, hr⟩) (fun _ hq => ⟨hq, hr⟩)
    (fun _ _ _ hq => .of_staysIn ⟨hq, hr⟩) fun _ _ hq => ⟨hq.close, hr⟩

theorem concatRestStep_confined (hl : left.StaysIn graphs) (h : s.Confined graphs s') :
    (concatRestStep left s).Confined graphs (concatRestStep left s') := by
  unfold concatRestStep Step.feed
  exact h.feedOr (fun _ hq => ⟨hl, hq⟩) (fun _ hq => ⟨hl, hq⟩)
    (fun _ _ _ hq => .of_staysIn ⟨hl, hq⟩) fun _ _ hq => ⟨hl, hq⟩

end Stages

theorem Pipe.AtHand.staysIn {state : RunState} {p q : Pipe} {signal : Signal}
    (h : AtHand state p signal q) (hp : p.StaysIn graphs) : q.StaysIn graphs := by
  cases h with
  | bindings_nil | bindings_cons | script_nil | script_row | script_fail | concatEnd => trivial
  | graphs_cancelled | names_cons => cases hp
  | spent | scan_cancelled | order_nil | order_cons => exact hp

/-- **Confinement.** A pipeline that stays in some graphs takes the same step over all datasets that
agree on the graphs, and stays in them. -/
theorem Pipe.StaysIn.step {ctx : Context} {d : Dataset} (hd : ctx.dataset.AgreeIn graphs d)
    {p : Pipe} (hp : p.StaysIn graphs) (scope : Option SharedRows) (state : RunState) :
    (p.step ctx scope state).Confined graphs (p.step (ctx.given d) scope state) := by
  induction p, state using step_induction generalizing scope with
  | at_hand h =>
    rw [h.step_eq, h.step_eq]
    exact .of_staysIn (h.staysIn hp)
  | tracked ih =>
    obtain ⟨hsame, hin⟩ := ih hp scope
    rw [step_tracked, step_tracked, hsame]
    exact .of_staysIn hin
  | replay hrun =>
    rw [step_replay hrun, step_replay hrun]
    refine .of_staysIn ?_
    unfold replayStep
    repeat' split
    all_goals trivial
  | @share shared input body state ihi ihb =>
    obtain ⟨hsame, hbody⟩ := ihb hp.2 (some shared)
    rw [step_share, step_share, hsame]
    split
    · exact .of_staysIn ⟨settle_staysIn hp.1 (StaysIn.close hp.1) _, hbody⟩
    · split
      · obtain ⟨hread, hin⟩ := ihi (body.step ctx (some shared) state).state hp.1 scope
        rw [hread]
        exact .of_staysIn ⟨hin, hbody⟩
      · exact .of_staysIn ⟨hp.1, hbody⟩
  | scan_reading hrun =>
    rw [step_scan_reading hrun, step_scan_reading hrun]
    exact .of_staysIn (scanItem_staysIn _ hp.1 _ _ hp.2)
  | scan hrun ha ih =>
    rw [step_scan hrun ha, step_scan hrun ha]
    exact scanStep_confined hd _ hp.1 (ih hp.2 scope)
  | filter hrun ih =>
    rw [step_filter hrun, step_filter hrun]
    exact filterStep_confined _ (ih hp scope)
  | join_gathering hrun ih =>
    rw [step_join_gathering hrun, step_join_gathering hrun]
    exact joinRightStep_confined _ _ _ hp.1 (ih hp.2 scope)
  | join_idle hrun ih =>
    rw [step_join_idle hrun, step_join_idle hrun]
    exact joinLeftStep_confined _ _ _ hp.2 (ih hp.1 scope)
  | join_trying hrun =>
    rw [step_join_trying hrun, step_join_trying hrun]
    exact .of_staysIn (joinTry_staysIn _ _ _ _ _ _ hp.1 hp.2)
  | optional hrun ih =>
    rw [step_optional hrun, step_optional hrun]
    exact optionalStep_confined hp.1 _ (ih hp.2 scope)
  | probing ih =>
    rw [step_probing, step_probing]
    exact probeStep_confined hp.1 _ _ _ hp.2.2 (ih hp.2.1 scope)
  | graphs_trying | graphs | within | names => cases hp
  | table_nil hrun =>
    rw [step_table_nil hrun, step_table_nil hrun]
    exact .of_staysIn (StaysIn.close hp)
  | table_trying hrun hrows =>
    rw [step_table_trying hrun hrows, step_table_trying hrun hrows]
    exact .of_staysIn (tableTry_staysIn _ _ _ hp)
  | table_idle hrun hrows ih =>
    rw [step_table_idle hrun hrows, step_table_idle hrun hrows]
    exact tableStep_confined _ (ih hp scope)
  | order hrun ih =>
    rw [step_order_gathering hrun, step_order_gathering hrun]
    exact orderStep_confined _ _ (ih hp scope)
  | project hrun ih =>
    rw [step_project hrun, step_project hrun]
    exact projectStep_confined _ (ih hp scope)
  | distinct hrun ih =>
    rw [step_distinct hrun, step_distinct hrun]
    exact distinctStep_confined _ _ (ih hp scope)
  | slice_zero hrun =>
    rw [step_slice_zero hrun, step_slice_zero hrun]
    exact .of_staysIn (StaysIn.close hp)
  | slice hrun hzero ih =>
    rw [step_slice hrun hzero, step_slice hrun hzero]
    exact sliceStep_confined _ _ (ih hp scope)
  | concat_first hrun ih =>
    rw [step_concat_first hrun, step_concat_first hrun]
    exact concatFirstStep_confined hp.2 (ih hp.1 scope)
  | concat_rest hrun ih =>
    rw [step_concat_rest hrun, step_concat_rest hrun]
    exact concatRestStep_confined hp.1 (ih hp.2 scope)

end TripleQuery
