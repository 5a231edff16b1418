import TripleQuery.Proofs.Pipe.Compile
import TripleQuery.Proofs.Solutions.Within

/-!
# The rows of a pipeline

What a pipeline can give, without running it. Each stage turns rows with one property into rows
with another one; `Pipe.GivesOnly` says that the properties of the stages fit together, and that the
rows a stage holds have them. It holds on (`Pipe.GivesOnly.step`), whatever the dataset answers, so
all rows of the pipeline have the property of its root. The pipeline of an operator extends the rows
of its seed within the variables of the operator (`Op.pipe_givesOnly`).
-/

namespace TripleQuery

/-! ## What stages hold and give -/

/-- The row that a scan reads items for has the property. -/
def ScanState.Over (A : Binding → Prop) : ScanState → Prop
  | .idle | .asking => True
  | .reading row _ => A row

/-- The left row of a join has one property, and the right rows another one. -/
def JoinState.Over (A B : Binding → Prop) : JoinState → Prop
  | .gathering rows => ∀ b ∈ rows, B b
  | .idle rows => ∀ b ∈ rows, B b
  | .trying rows row untried _ => (∀ b ∈ rows, B b) ∧ A row ∧ ∀ b ∈ untried, B b

/-- The row that goes through the graphs has the property. -/
def GraphsState.Over (A : Binding → Prop) : GraphsState → Prop
  | .idle | .asking => True
  | .trying row _ => A row

/-- The row that goes through a table has the property, and what it goes through is of the table. -/
def TableState.Over (A : Binding → Prop) (rows : List Binding) : TableState → Prop
  | .idle => True
  | .trying row untried => A row ∧ untried ⊆ rows

/-- The rows of a sort have the property. -/
def OrderState.Over (A : Binding → Prop) : OrderState → Prop
  | .gathering keyed => ∀ e ∈ keyed, A e.2
  | .sorted rows => ∀ b ∈ rows, A b

/-- Extending rows with one property within the variables of a plain operator, and some more, makes
rows with another one. -/
structure Op.Leads (sub : Op) (vars : List Variable) (A P : Binding → Prop) : Prop where
  plain : sub.Plain
  leads (row m : Binding) : A row → row.ExtendsWithin (vars ++ sub.mentions) m → P m

theorem Op.Leads.mono {sub : Op} {vars : List Variable} {A P P' : Binding → Prop}
    (h : sub.Leads vars A P) (hP : ∀ m, P m → P' m) : sub.Leads vars A P' :=
  ⟨h.plain, fun row m hrow hm => hP m (h.leads row m hrow hm)⟩

/-- What a join makes of left rows with one property and right rows with another one has a third
property: unmatched left rows of an optional join, and unions of a left and a right row. -/
structure JoinKind.Leads (kind : JoinKind) (A B P : Binding → Prop) : Prop where
  alone (a : Binding) : kind = .left → A a → P a
  pair (a b m : Binding) : A a → B b → a.union? b = some m → P m

/-- The rows that the pipeline can give have the property `P`, if those that the shared input keeps
have the property `kept`: the properties of the rows of each input are passed on by its stage. -/
def Pipe.GivesOnly : Pipe → (kept P : Binding → Prop) → Prop
  | .bindings _ rows, _, P => ∀ b ∈ rows, P b
  | .script _ items, _, P => ∀ b, .row b ∈ items → P b
  | .tracked _ _ input, kept, P => input.GivesOnly kept P
  | .replay .., kept, P => ∀ b, kept b → P b
  | .share shared input body, kept, P =>
    ∃ A : Binding → Prop, (∀ b ∈ shared.rows, A b) ∧ input.GivesOnly kept A ∧ body.GivesOnly A P
  | .scan _ pattern slot at' input, kept, P =>
    ∃ A : Binding → Prop, input.GivesOnly kept A ∧ at'.Over A ∧
      ∀ row q m, A row → bindQuad pattern slot row q = some m → P m
  | .join _ kind _ at' left right, kept, P =>
    ∃ A B : Binding → Prop, left.GivesOnly kept A ∧ right.GivesOnly kept B ∧ at'.Over A B ∧
      kind.Leads A B P
  | .optional _ sub _ _ input, kept, P =>
    ∃ A : Binding → Prop, input.GivesOnly kept A ∧ sub.Leads [] A P
  | .probing sub _ _ row _ probe input, kept, P =>
    probe.GivesOnly kept P ∧
      ∃ A : Binding → Prop, input.GivesOnly kept A ∧ A row ∧ sub.Leads [] A P
  | .graphs _ v sub _ at' input, kept, P =>
    ∃ A : Binding → Prop, input.GivesOnly kept A ∧ at'.Over A ∧ sub.Leads [v] A P
  | .within v sub _ row _ inner input, kept, P =>
    inner.GivesOnly kept P ∧
      ∃ A : Binding → Prop, input.GivesOnly kept A ∧ A row ∧ sub.Leads [v] A P
  | .names _ name _ pending input, kept, P =>
    (∀ b ∈ pending, P b) ∧ ∃ A : Binding → Prop, input.GivesOnly kept A ∧
      ∀ row names m, A row → m ∈ nameRows name names row → P m
  | .table _ rows at' input, kept, P =>
    ∃ A : Binding → Prop, input.GivesOnly kept A ∧ at'.Over A rows ∧
      ∀ row b m, A row → b ∈ rows → row.union? b = some m → P m
  | .order _ _ at' input, kept, P => at'.Over P ∧ input.GivesOnly kept P
  | .project _ vars input, kept, P => input.GivesOnly kept fun row => P (row.project vars)
  | .filter _ _ input, kept, P | .distinct _ _ _ input, kept, P | .slice _ _ _ input, kept, P =>
    input.GivesOnly kept P
  | .concat _ _ first rest, kept, P => first.GivesOnly kept P ∧ rest.GivesOnly kept P
  | .concatEnd _, _, _ => True

variable {kept P P' A B : Binding → Prop}

theorem OrderState.Over.mono {at' : OrderState} (h : at'.Over P) (hP : ∀ m, P m → P' m) :
    at'.Over P' := by
  cases at' with
  | gathering keyed => exact fun e he => hP e.2 (h e he)
  | sorted rows => exact fun b hb => hP b (h b hb)

theorem Pipe.GivesOnly.mono {p : Pipe} (h : p.GivesOnly kept P) (hP : ∀ m, P m → P' m) :
    p.GivesOnly kept P' := by
  induction p generalizing kept P P' with
  | bindings _ rows => exact fun b hb => hP b (h b hb)
  | script _ items => exact fun b hb => hP b (h b hb)
  | replay => exact fun b hb => hP b (h b hb)
  | concatEnd => trivial
  | tracked _ _ _ ih | filter _ _ _ ih | distinct _ _ _ _ ih | slice _ _ _ _ ih => exact ih h hP
  | project _ vars _ ih => exact ih h fun row hrow => hP _ hrow
  | order _ _ _ _ ih => exact ⟨h.1.mono hP, ih h.2 hP⟩
  | concat _ _ _ _ ihf ihr => exact ⟨ihf h.1 hP, ihr h.2 hP⟩
  | share _ _ _ _ ihb =>
    obtain ⟨A, hrows, hinput, hbody⟩ := h
    exact ⟨A, hrows, hinput, ihb hbody hP⟩
  | scan =>
    obtain ⟨A, hinput, hat, hgive⟩ := h
    exact ⟨A, hinput, hat, fun row q m hrow hm => hP m (hgive row q m hrow hm)⟩
  | join =>
    obtain ⟨A, B, hleft, hright, hat, hkind⟩ := h
    exact ⟨A, B, hleft, hright, hat, fun a hleft ha => hP a (hkind.alone a hleft ha),
      fun a b m ha hb hm => hP m (hkind.pair a b m ha hb hm)⟩
  | optional =>
    obtain ⟨A, hinput, hsub⟩ := h
    exact ⟨A, hinput, hsub.mono hP⟩
  | probing _ _ _ _ _ _ _ ihp =>
    obtain ⟨hprobe, A, hinput, hrow, hsub⟩ := h
    exact ⟨ihp hprobe hP, A, hinput, hrow, hsub.mono hP⟩
  | graphs =>
    obtain ⟨A, hinput, hat, hsub⟩ := h
    exact ⟨A, hinput, hat, hsub.mono hP⟩
  | within _ _ _ _ _ _ _ ihi =>
    obtain ⟨hinner, A, hinput, hrow, hsub⟩ := h
    exact ⟨ihi hinner hP, A, hinput, hrow, hsub.mono hP⟩
  | names =>
    obtain ⟨hpending, A, hinput, hgive⟩ := h
    exact ⟨fun b hb => hP b (hpending b hb), A, hinput,
      fun row names m hrow hm => hP m (hgive row names m hrow hm)⟩
  | table =>
    obtain ⟨A, hinput, hat, hgive⟩ := h
    exact ⟨A, hinput, hat, fun row b m hrow hb hm => hP m (hgive row b m hrow hb hm)⟩

/-! ## Pipelines of operators -/

/-- Scans, and the filter among them, extend rows within the variables of the patterns and of the
slot. -/
theorem scanChain_givesOnly {slot : GraphSlot} (patterns : List TriplePattern)
    {condition : Option Expr} {bound : List Variable} {p : Pipe} (h : p.GivesOnly kept A)
    (hP : ∀ s m, A s → s.ExtendsWithin (patterns.flatMap TriplePattern.vars ++ slot.vars) m → P m) :
    (scanChain slot condition bound patterns p).GivesOnly kept P := by
  induction patterns generalizing condition bound p A with
  | nil =>
    have hp : p.GivesOnly kept P := h.mono fun b hb => hP b b hb (.refl _ b)
    cases condition <;> exact hp
  | cons pattern patterns ih =>
    have hscan : (Pipe.scan .created pattern slot .idle p).GivesOnly kept
        fun m => ∃ s, A s ∧ s.ExtendsWithin (pattern.vars ++ slot.vars) m :=
      ⟨A, h, trivial, fun row q m hrow hm => ⟨row, hrow, bindQuad_within hm⟩⟩
    have hrest (b m : Binding) (hb : ∃ s, A s ∧ s.ExtendsWithin (pattern.vars ++ slot.vars) b)
        (hm : b.ExtendsWithin (patterns.flatMap TriplePattern.vars ++ slot.vars) m) : P m := by
      obtain ⟨s, hs, hsb⟩ := hb
      refine hP s m hs ((hsb.trans hm).mono fun v hv => ?_)
      simp only [List.mem_append, List.flatMap_cons] at hv ⊢
      rcases hv with (hv | hv) | hv | hv <;> simp [hv]
    cases condition with
    | none => exact ih hscan hrest
    | some e =>
      rw [scanChain]
      split
      · exact ih hscan hrest
      · exact ih hscan hrest

theorem Op.patterns?_vars (sub : Op) (g : ActiveGraph) {slot : GraphSlot}
    {patterns : List TriplePattern} (h : sub.patterns? g = some (slot, patterns)) :
    patterns.flatMap TriplePattern.vars ++ slot.vars ⊆ sub.mentions := by
  cases sub with
  | bgp patterns =>
    cases h
    cases g <;> simp [mentions, GraphSlot.ofActive, GraphSlot.vars]
  | quadPattern name patterns =>
    cases h
    cases name <;>
      simp [mentions, GraphSlot.ofPattern, GraphSlot.vars, TermPattern.vars,
        TermPattern.asVariable?]
  | _ => cases h

/-- A pipeline that reads no seed, joined with the seed, extends the rows of the seed within the
variables that its own rows bind. -/
theorem Seed.joined_givesOnly {seed : Seed} (h : seed.toPipe.GivesOnly kept A) {own : Pipe}
    {vars : List Variable} (hown : own.GivesOnly kept (Binding.empty.ExtendsWithin vars))
    (hP : ∀ s m, A s → s.ExtendsWithin vars m → P m) : (seed.joined own).GivesOnly kept P := by
  cases seed with
  | identity => exact hown.mono fun m hm => hP _ m (h _ (List.mem_singleton.2 rfl)) hm
  | input p =>
    refine ⟨A, Binding.empty.ExtendsWithin vars, h, hown, fun b hb => absurd hb (by simp),
      fun a hkind => ?_, fun a b m ha hb hm => hP a m ha (.of_union? hm fun v hv => ?_)⟩
    · cases hkind
    · rcases hb.domain v hv with hempty | hin
      · cases hempty
      · exact hin

theorem Op.filtered_givesOnly (ctx : Context) (e : Expr) {g : ActiveGraph} (sub : Op) {seed : Seed}
    (h : seed.toPipe.GivesOnly kept A) {own : Pipe} (ho : own.GivesOnly kept P)
    (hP : ∀ s m, A s → s.ExtendsWithin sub.mentions m → P m) :
    (sub.filtered ctx e g seed own).GivesOnly kept P := by
  unfold filtered
  split
  · next slot patterns hpatterns _ =>
    exact scanChain_givesOnly patterns h fun s m hs hm =>
      hP s m hs (hm.mono (sub.patterns?_vars g hpatterns))
  · exact ho

/-- **The pipeline of an operator extends the rows of its seed within the variables of the
operator.** -/
theorem Op.pipe_givesOnly {op : Op} (hop : op.Plain) (ctx : Context) (g : ActiveGraph) {seed : Seed}
    (h : seed.toPipe.GivesOnly kept A)
    (hP : ∀ s m, A s → s.ExtendsWithin op.mentions m → P m) :
    (op.pipe ctx g seed).GivesOnly kept P := by
  have hidentity {kept : Binding → Prop} :
      Seed.identity.toPipe.GivesOnly kept (· = Binding.empty) := fun b hb => List.mem_singleton.1 hb
  have hempty {vars : List Variable} (s m : Binding) (hs : s = Binding.empty)
      (hm : s.ExtendsWithin vars m) : Binding.empty.ExtendsWithin vars m := hs ▸ hm
  induction op generalizing kept g seed A P with
  | bgp patterns =>
    exact scanChain_givesOnly patterns h fun s m hs hm =>
      hP s m hs (hm.mono (patterns?_vars (.bgp patterns) g rfl))
  | quadPattern name patterns =>
    exact scanChain_givesOnly patterns h fun s m hs hm =>
      hP s m hs (hm.mono (patterns?_vars (.quadPattern name patterns) g rfl))
  | datasetNames name =>
    exact ⟨fun b hb => absurd hb (by simp), A, h,
      fun row names m hrow hm => hP row m hrow (nameRows_within hm)⟩
  | table t =>
    refine ⟨A, h, trivial, fun row b m hrow hb hm => hP row m hrow (.of_union? hm fun v hv => ?_)⟩
    exact List.mem_append_right _ (List.mem_flatMap.2 ⟨b, hb, Binding.mem_domain_iff.2 hv⟩)
  | extension => cases hop
  | join l r ihl ihr =>
    have hl : (Seed.input (l.pipe ctx g seed)).toPipe.GivesOnly kept
        fun m => ∃ s, A s ∧ s.ExtendsWithin l.mentions m :=
      ihl hop.1 g h fun s m hs hm => ⟨s, hs, hm⟩
    refine ihr hop.2 g hl fun b m hb hm => ?_
    obtain ⟨s, hs, hsb⟩ := hb
    exact hP s m hs (hsb.trans hm)
  | leftJoin l r condition ihl ihr =>
    have hl : (l.pipe ctx g .identity).GivesOnly kept (Binding.empty.ExtendsWithin l.mentions) :=
      ihl hop.1 g hidentity hempty
    refine Seed.joined_givesOnly h ?_ hP
    split
    · exact ⟨_, hl, hop.2, fun row m hrow hm => hrow.trans hm⟩
    · have hr : (r.pipe ctx g .identity).GivesOnly kept (Binding.empty.ExtendsWithin r.mentions) :=
        ihr hop.2 g hidentity hempty
      refine ⟨_, _, hl, hr, fun b hb => absurd hb (by simp),
        fun a _ ha => ha.mono (List.subset_append_left _ _),
        fun a b m ha hb hm => ?_⟩
      refine ha.trans (.of_union? hm fun v hv => ?_)
      rcases hb.domain v hv with hempty | hin
      · cases hempty
      · exact hin
  | union l r ihl ihr =>
    have hleft (s m : Binding) (hs : A s) (hm : s.ExtendsWithin l.mentions m) : P m :=
      hP s m hs (hm.mono (List.subset_append_left _ _))
    have hright (s m : Binding) (hs : A s) (hm : s.ExtendsWithin r.mentions m) : P m :=
      hP s m hs (hm.mono (List.subset_append_right _ _))
    cases seed with
    | identity => exact ⟨ihl hop.1 g h hleft, ihr hop.2 g h hright, trivial⟩
    | input p =>
      -- both readers give the rows that the scope keeps, which are those of the input
      let reader : Seed := .input (.replay .created 0)
      have hreader : reader.toPipe.GivesOnly A A := fun b hb => hb
      have hl : (l.pipe ctx g reader).GivesOnly A P := ihl hop.1 g hreader hleft
      have hr : (r.pipe ctx g reader).GivesOnly A P := ihr hop.2 g hreader hright
      exact ⟨A, fun b hb => absurd hb (by simp [SharedRows.forTwo]), h, hl, hr, trivial⟩
  | filter e sub ih =>
    rw [pipe]
    split
    · exact sub.filtered_givesOnly ctx e h (ih hop g h hP) hP
    · have hown : (sub.filtered ctx e g .identity (sub.pipe ctx g .identity)).GivesOnly kept
          (Binding.empty.ExtendsWithin sub.mentions) :=
        sub.filtered_givesOnly ctx e hidentity (ih hop g hidentity hempty) hempty
      exact Seed.joined_givesOnly h hown hP
  | graph name sub ih =>
    cases name with
    | term name => exact ih hop (.named name) h hP
    | var v => exact ⟨A, h, trivial, hop, hP⟩
  | order keys sub ih =>
    exact Seed.joined_givesOnly h ⟨fun e he => absurd he (by simp), ih hop g hidentity hempty⟩ hP
  | project vars sub ih =>
    have hown : (Pipe.project .created vars (sub.pipe ctx g .identity)).GivesOnly kept
        (Binding.empty.ExtendsWithin vars) :=
      ih hop g hidentity fun s m _ _ => .project vars m
    exact Seed.joined_givesOnly h hown hP
  | distinct sub ih | slice _ _ sub ih =>
    exact Seed.joined_givesOnly h (ih hop g hidentity hempty) hP

/-! ## Closing -/

theorem settle_givesOnly {shared : SharedRows} {input : Pipe} (hrows : ∀ b ∈ shared.rows, A b)
    (hi : input.GivesOnly kept A) (close : Unit → Pipe × List Event)
    (hc : (close ()).1.GivesOnly kept A) (events : List Event) :
    (∀ b ∈ (shared.settle input close events).1.rows, A b) ∧
      (shared.settle input close events).2.1.GivesOnly kept A := by
  induction events generalizing shared input with
  | nil => exact ⟨hrows, hi⟩
  | cons e rest ih =>
    rw [SharedRows.settle]
    split
    · split
      · exact ih (fun b hb => absurd hb (by simp)) hc
      · exact ih hrows hi
    · exact ih hrows hi

theorem Pipe.GivesOnly.close {p : Pipe} (h : p.GivesOnly kept P) :
    p.close.1.GivesOnly kept P := by
  induction p generalizing kept P with
  | bindings => exact fun b hb => absurd hb (by simp)
  | script => exact fun b hb => h b hb
  | replay => exact fun b hb => h b hb
  | concatEnd => trivial
  | tracked _ _ _ ih | filter _ _ _ ih | project _ _ _ ih | distinct _ _ _ _ ih
  | slice _ _ _ _ ih => exact ih h
  | order _ _ _ _ ih => exact ⟨fun b hb => absurd hb (by simp), ih h.2⟩
  | concat _ _ _ _ ihf ihr => exact ⟨ihf h.1, ihr h.2⟩
  | share _ input body ihi ihb =>
    obtain ⟨A, hrows, hinput, hbody⟩ := h
    obtain ⟨hkept, hin⟩ := settle_givesOnly hrows hinput (fun _ => input.close) (ihi hinput)
      body.close.2
    exact ⟨A, hkept, hin, ihb hbody⟩
  | scan _ _ _ _ _ ih =>
    obtain ⟨A, hinput, -, hgive⟩ := h
    exact ⟨A, ih hinput, trivial, hgive⟩
  | join _ _ _ _ _ _ ihl ihr =>
    obtain ⟨A, B, hleft, hright, -, hgive⟩ := h
    exact ⟨A, B, ihl hleft, ihr hright, fun b hb => absurd hb (by simp), hgive⟩
  | optional _ _ _ _ _ ih =>
    obtain ⟨A, hinput, hsub⟩ := h
    exact ⟨A, ih hinput, hsub⟩
  | probing _ _ _ _ _ _ _ _ ih =>
    obtain ⟨-, A, hinput, -, hsub⟩ := h
    exact ⟨A, ih hinput, hsub⟩
  | graphs _ _ _ _ _ _ ih =>
    obtain ⟨A, hinput, -, hsub⟩ := h
    exact ⟨A, ih hinput, trivial, hsub⟩
  | within _ _ _ _ _ _ _ _ ih =>
    obtain ⟨-, A, hinput, -, hsub⟩ := h
    exact ⟨A, ih hinput, trivial, hsub⟩
  | names _ _ _ _ _ ih =>
    obtain ⟨-, A, hinput, hgive⟩ := h
    exact ⟨fun b hb => absurd hb (by simp), A, ih hinput, hgive⟩
  | table _ _ _ _ ih =>
    obtain ⟨A, hinput, -, hgive⟩ := h
    exact ⟨A, ih hinput, trivial, hgive⟩

/-! ## Steps -/

/-- A row that the step gives has the property, and so have those that its pipeline can give. -/
structure Step.GivesOnly (kept P : Binding → Prop) (s : Step) : Prop where
  row (b : Binding) : s.signal = .yield b → P b
  pipe : s.pipe.GivesOnly kept P

namespace Step.GivesOnly

variable {s : Step}

theorem after (h : s.GivesOnly kept P) (events : List Event) : (s.after events).GivesOnly kept P :=
  ⟨h.row, h.pipe⟩

/-- A step that gives no row. -/
theorem silent {signal : Signal} {p : Pipe} {events : List Event} {state : RunState}
    (h : p.GivesOnly kept P) (hs : ∀ b, signal ≠ .yield b) :
    Step.GivesOnly kept P ⟨signal, p, events, state⟩ :=
  ⟨fun b hb => absurd hb (hs b), h⟩

/-- A step that gives one row. -/
theorem yielding {b : Binding} {p : Pipe} {events : List Event} {state : RunState}
    (h : p.GivesOnly kept P) (hb : P b) : Step.GivesOnly kept P ⟨.yield b, p, events, state⟩ :=
  ⟨fun _ hsame => Signal.yield.inj hsame ▸ hb, h⟩

/-- A stage passes properties on, if it does so with a row and at the end. -/
theorem feedOr (h : s.GivesOnly kept A) {hold drop : Pipe → Pipe}
    {onRow : Binding → Pipe → RunState → Step} {onEnd : Pipe → RunState → Step}
    (hhold : ∀ q, q.GivesOnly kept A → (hold q).GivesOnly kept P)
    (hdrop : ∀ q, q.GivesOnly kept A → (drop q).GivesOnly kept P)
    (hrow : ∀ b q state, A b → q.GivesOnly kept A → (onRow b q state).GivesOnly kept P)
    (hend : ∀ q state, q.GivesOnly kept A → (onEnd q state).GivesOnly kept P) :
    (s.feedOr hold drop onRow onEnd).GivesOnly kept P := by
  obtain ⟨signal, p, events, state⟩ := s
  obtain ⟨hb, hp⟩ := h
  cases signal with
  | yield b => exact (hrow b p state (hb b rfl) hp).after events
  | done => exact (hend p state hp).after events
  | fail e => exact silent (hdrop p hp) nofun
  | skip | await => exact silent (hhold p hp) nofun

end Step.GivesOnly

section Stages

variable {ctx : Context} {s : Step} {input left right : Pipe} {state : RunState}

theorem scanStep_givesOnly {pattern : TriplePattern} {slot : GraphSlot} (h : s.GivesOnly kept A)
    (hgive : ∀ row q m, A row → bindQuad pattern slot row q = some m → P m) :
    (scanStep ctx pattern slot s).GivesOnly kept P := by
  refine h.feedOr (fun _ hq => ⟨A, hq, trivial, hgive⟩) (fun _ hq => ⟨A, hq, trivial, hgive⟩)
    (fun row q state hrow hq => ?_)
    fun _ _ hq => .silent ⟨A, hq.close, trivial, hgive⟩ nofun
  unfold scanRow
  dsimp only
  split
  · exact .silent ⟨A, hq, hrow, hgive⟩ nofun
  · exact .silent ⟨A, hq, trivial, hgive⟩ nofun

/-- The items are checked against the pattern, so it does not matter what the dataset lists. -/
theorem scanItem_givesOnly {pattern : TriplePattern} {slot : GraphSlot} {row : Binding}
    (items : List CursorItem) (hi : input.GivesOnly kept A) (hrow : A row)
    (hgive : ∀ row q m, A row → bindQuad pattern slot row q = some m → P m) :
    (scanItem ctx pattern slot row items input state).GivesOnly kept P := by
  unfold scanItem
  split
  · exact .silent ⟨A, hi, trivial, hgive⟩ nofun
  · next q rest =>
    cases hb : bindQuad pattern slot row q with
    | none => exact .silent ⟨A, hi, hrow, hgive⟩ nofun
    | some m => exact .yielding ⟨A, hi, hrow, hgive⟩ (hgive row q m hrow hb)
  · exact .silent ⟨A, hi, hrow, hgive⟩ nofun
  · exact .silent ⟨A, hi, hrow, hgive⟩ nofun

theorem filterStep_givesOnly (e : Expr) (h : s.GivesOnly kept P) :
    (filterStep ctx e s).GivesOnly kept P := by
  unfold filterStep Step.feed
  refine h.feedOr (fun _ hq => hq) (fun _ hq => hq) (fun row q state hrow hq => ?_)
    fun _ _ hq => .silent hq.close nofun
  unfold filterRow
  split
  · exact .yielding hq hrow
  · exact .silent hq nofun

theorem projectStep_givesOnly (vars : List Variable)
    (h : s.GivesOnly kept fun row => P (row.project vars)) :
    (projectStep vars s).GivesOnly kept P := by
  unfold projectStep Step.feed
  exact h.feedOr (fun _ hq => hq) (fun _ hq => hq) (fun _ _ _ hrow hq => .yielding hq hrow)
    fun _ _ hq => .silent hq.close nofun

theorem tableStep_givesOnly {rows : List Binding} (h : s.GivesOnly kept A)
    (hgive : ∀ row b m, A row → b ∈ rows → row.union? b = some m → P m) :
    (tableStep rows s).GivesOnly kept P := by
  unfold tableStep Step.feed
  exact h.feedOr (fun _ hq => ⟨A, hq, trivial, hgive⟩) (fun _ hq => ⟨A, hq, trivial, hgive⟩)
    (fun _ _ _ hrow hq => .silent ⟨A, hq, ⟨hrow, List.Subset.refl rows⟩, hgive⟩ nofun)
    fun _ _ hq => .silent ⟨A, hq.close, trivial, hgive⟩ nofun

theorem tableTry_givesOnly {rows : List Binding} {row : Binding} {untried : List Binding}
    (hi : input.GivesOnly kept A) (hat : (TableState.trying row untried).Over A rows)
    (hgive : ∀ row b m, A row → b ∈ rows → row.union? b = some m → P m) :
    (tableTry rows row untried input state).GivesOnly kept P := by
  obtain ⟨hrow, hsub⟩ := hat
  unfold tableTry
  split
  · exact .silent ⟨A, hi, trivial, hgive⟩ nofun
  · next other rest =>
    obtain ⟨hother, hrest⟩ := List.cons_subset.1 hsub
    have hstay : (Pipe.table .active rows (.trying row rest) input).GivesOnly kept P :=
      ⟨A, hi, ⟨hrow, hrest⟩, hgive⟩
    cases hm : row.union? other with
    | none =>
      unfold Binding.union? at hm
      rw [hm]
      exact .silent hstay nofun
    | some m =>
      have hpair : P m := hgive row other m hrow hother hm
      unfold Binding.union? at hm
      rw [hm]
      exact .yielding hstay hpair

theorem sliceStep_givesOnly (skip : Nat) (remaining : Option Nat) (h : s.GivesOnly kept P) :
    (sliceStep skip remaining s).GivesOnly kept P := by
  unfold sliceStep Step.feed
  refine h.feedOr (fun _ hq => hq) (fun _ hq => hq) (fun row q state hrow hq => ?_)
    fun _ _ hq => .silent hq.close nofun
  unfold sliceRow
  split
  · exact .silent hq nofun
  · split
    · exact .yielding hq.close hrow
    · exact .yielding hq hrow
  · exact .yielding hq hrow

theorem distinctStep_givesOnly (seen : List Binding) (limit : Nat) (h : s.GivesOnly kept P) :
    (distinctStep seen limit s).GivesOnly kept P := by
  unfold distinctStep Step.feed
  refine h.feedOr (fun _ hq => hq) (fun _ hq => hq) (fun row q state hrow hq => ?_)
    fun _ _ hq => .silent hq.close nofun
  unfold distinctRow
  split
  · exact .silent hq nofun
  · dsimp only
    split
    · exact .silent hq nofun
    · exact .yielding hq hrow

theorem orderStep_givesOnly (keys : List SortKey) {keyed : Array (List (Option Term) × Binding)}
    (hkeyed : ∀ e ∈ keyed, P e.2) (h : s.GivesOnly kept P) :
    (orderStep ctx keys keyed s).GivesOnly kept P := by
  have hnone : (OrderState.gathering #[]).Over P := fun e he => absurd he (by simp)
  unfold orderStep
  refine h.feedOr (fun _ hq => ⟨hkeyed, hq⟩) (fun _ hq => ⟨hnone, hq⟩)
    (fun row q state hrow hq => ?_) fun q state hq => ?_
  · unfold orderRow
    split
    · exact .silent ⟨hnone, hq⟩ nofun
    · dsimp only
      split
      · exact .silent ⟨hnone, hq⟩ nofun
      · refine .silent ⟨fun e he => ?_, hq⟩ nofun
        rcases Array.mem_push.1 he with he | rfl
        · exact hkeyed e he
        · exact hrow
  · refine .silent ⟨fun b hb => ?_, hq.close⟩ nofun
    obtain ⟨e, he, rfl⟩ := List.mem_map.1 hb
    exact hkeyed e (Array.mem_toList_iff.1 ((List.mergeSort_perm _ _).mem_iff.1 he))

theorem joinFinish_givesOnly {kind : JoinKind} {condition : Option Expr} (hkind : kind.Leads A B P)
    (hl : left.GivesOnly kept A) (hr : right.GivesOnly kept B) :
    (joinFinish kind condition left right state).GivesOnly kept P :=
  .silent ⟨A, B, hl.close, hr.close, fun b hb => absurd hb (by simp), hkind⟩ nofun

theorem joinRightStep_givesOnly {kind : JoinKind} {condition : Option Expr} {rows : Array Binding}
    (hkind : kind.Leads A B P) (hrows : ∀ b ∈ rows, B b) (hl : left.GivesOnly kept A)
    (h : s.GivesOnly kept B) :
    (joinRightStep ctx kind condition rows left s).GivesOnly kept P := by
  unfold joinRightStep Step.feed
  refine h.feedOr (fun _ hq => ⟨A, B, hl, hq, hrows, hkind⟩)
    (fun _ hq => ⟨A, B, hl, hq, hrows, hkind⟩) (fun row q state hrow hq => ?_) fun q state hq => ?_
  · have hmore : ∀ b ∈ rows.push row, B b := fun b hb => by
      rcases Array.mem_push.1 hb with hb | rfl
      · exact hrows b hb
      · exact hrow
    unfold joinGather
    dsimp only
    split <;> exact .silent ⟨A, B, hl, hq, hmore, hkind⟩ nofun
  · unfold joinGathered
    refine Step.GivesOnly.after ?_ _
    split
    · exact joinFinish_givesOnly hkind hl hq.close
    · have hlist : ∀ b ∈ rows.toList, B b := fun b hb => hrows b (Array.mem_toList_iff.1 hb)
      exact .silent ⟨A, B, hl, hq.close, hlist, hkind⟩ nofun

theorem joinLeftStep_givesOnly {kind : JoinKind} {condition : Option Expr} {rows : List Binding}
    (hkind : kind.Leads A B P) (hrows : ∀ b ∈ rows, B b) (hr : right.GivesOnly kept B)
    (h : s.GivesOnly kept A) : (joinLeftStep kind condition rows right s).GivesOnly kept P := by
  unfold joinLeftStep Step.feed
  exact h.feedOr (fun _ hq => ⟨A, B, hq, hr, hrows, hkind⟩)
    (fun _ hq => ⟨A, B, hq, hr, hrows, hkind⟩)
    (fun _ _ _ hrow hq => .silent ⟨A, B, hq, hr, ⟨hrows, hrow, hrows⟩, hkind⟩ nofun)
    fun _ _ hq => joinFinish_givesOnly hkind hq hr

theorem joinTry_givesOnly {kind : JoinKind} {condition : Option Expr} {rows : List Binding}
    {row : Binding} {untried : List Binding} {matched : Bool} (hkind : kind.Leads A B P)
    (hat : (JoinState.trying rows row untried matched).Over A B) (hl : left.GivesOnly kept A)
    (hr : right.GivesOnly kept B) :
    (joinTry kind condition rows row untried matched left right state).GivesOnly kept P := by
  obtain ⟨hrows, hrow, huntried⟩ := hat
  unfold joinTry
  split
  · have hidle : (Pipe.join .active kind condition (.idle rows) left right).GivesOnly kept P :=
      ⟨A, B, hl, hr, hrows, hkind⟩
    split
    · next halone => exact .yielding hidle (hkind.alone row halone.1 hrow)
    · exact .silent hidle nofun
  · next other rest =>
    obtain ⟨hother, hrest⟩ := List.forall_mem_cons.1 huntried
    have hstay (matched : Bool) : (Pipe.join .active kind condition
        (.trying rows row rest matched) left right).GivesOnly kept P :=
      ⟨A, B, hl, hr, ⟨hrows, hrow, hrest⟩, hkind⟩
    dsimp only
    split
    · exact .silent (hstay matched) nofun
    · next merged hmerged =>
      split
      · refine .yielding (hstay true) (hkind.pair row other merged hrow hother ?_)
        rw [Binding.union?, hmerged]
        rfl
      · exact .silent (hstay matched) nofun

/-- The right side is compiled for a row, so its rows extend that row. -/
theorem optionalStep_givesOnly {sub : Op} {g : ActiveGraph} (condition : Option Expr)
    (hsub : sub.Leads [] A P) (h : s.GivesOnly kept A) :
    (optionalStep ctx sub condition g s).GivesOnly kept P := by
  unfold optionalStep Step.feed
  refine h.feedOr (fun _ hq => ⟨A, hq, hsub⟩) (fun _ hq => ⟨A, hq, hsub⟩)
    (fun row q state hrow hq => ?_) fun _ _ hq => .silent ⟨A, hq.close, hsub⟩ nofun
  have hseed : (Seed.input (.single row)).toPipe.GivesOnly kept (· = row) :=
    fun b hb => List.mem_singleton.1 hb
  have hprobe : (sub.pipe ctx g (.input (.single row))).GivesOnly kept P :=
    sub.pipe_givesOnly hsub.plain ctx g hseed fun s m hs hm => hsub.leads row m hrow (hs ▸ hm)
  rw [optionalRow_plain hsub.plain]
  exact .silent ⟨hprobe, A, hq, hrow, hsub⟩ nofun

theorem probeStep_givesOnly {sub : Op} {g : ActiveGraph} (condition : Option Expr) {row : Binding}
    (matched : Bool) (hsub : sub.Leads [] A P) (hrow : A row) (hi : input.GivesOnly kept A)
    (h : s.GivesOnly kept P) :
    (probeStep sub condition g row matched input s).GivesOnly kept P := by
  have hstay (matched : Bool) (q : Pipe) (hq : q.GivesOnly kept P) :
      (Pipe.probing sub condition g row matched q input).GivesOnly kept P :=
    ⟨hq, A, hi, hrow, hsub⟩
  unfold probeStep Step.feed
  refine h.feedOr (hstay matched) (hstay matched) (fun b q state hb hq => ?_) fun q state hq => ?_
  · unfold probeRow
    split
    · exact .yielding (hstay true q hq) hb
    · exact .silent (hstay matched q hq) nofun
  · have hback : (Pipe.optional .active sub condition g input).GivesOnly kept P := ⟨A, hi, hsub⟩
    unfold probeEnd
    split
    · exact .silent hback nofun
    · exact .yielding hback (hsub.leads row row hrow (.refl _ row))

theorem graphsStep_givesOnly {v : Variable} {sub : Op} (known : Option (List Term))
    (hsub : sub.Leads [v] A P) (h : s.GivesOnly kept A) :
    (graphsStep ctx v sub known s).GivesOnly kept P := by
  refine h.feedOr (fun _ hq => ⟨A, hq, trivial, hsub⟩) (fun _ hq => ⟨A, hq, trivial, hsub⟩)
    (fun row q state hrow hq => ?_) fun _ _ hq => .silent ⟨A, hq.close, trivial, hsub⟩ nofun
  unfold graphsRow
  split
  · exact .silent ⟨A, hq, hrow, hsub⟩ nofun
  · exact .silent ⟨A, hq, trivial, hsub⟩ nofun

/-- The subtree is compiled for a row with a graph name, so its rows extend that row. -/
theorem graphsTry_givesOnly {v : Variable} {sub : Op} (known : Option (List Term)) {row : Binding}
    (candidates : List Term) (hsub : sub.Leads [v] A P) (hrow : A row)
    (hi : input.GivesOnly kept A) :
    (graphsTry ctx v sub known row candidates input state).GivesOnly kept P := by
  cases candidates with
  | nil => exact .silent ⟨A, hi, trivial, hsub⟩ nofun
  | cons name candidates =>
    cases hext : row.extend v name with
    | error c =>
      rw [graphsTry_error ctx hext]
      exact .silent ⟨A, hi, hrow, hsub⟩ nofun
    | ok seed =>
      have hseed : (Seed.input (.single seed)).toPipe.GivesOnly kept (· = seed) :=
        fun b hb => List.mem_singleton.1 hb
      have hnamed : row.ExtendsWithin [v] seed := .of_extend (t := name) (by rw [hext]; rfl)
      have hinner : (sub.pipe ctx (.named name) (.input (.single seed))).GivesOnly kept P :=
        sub.pipe_givesOnly hsub.plain ctx (.named name) hseed fun s m hs hm =>
          hsub.leads row m hrow (hnamed.trans (hs ▸ hm))
      rw [graphsTry_ok hsub.plain ctx hext]
      exact .silent ⟨hinner, A, hi, hrow, hsub⟩ nofun

theorem withinStep_givesOnly {v : Variable} {sub : Op} (known : Option (List Term)) {row : Binding}
    (candidates : List Term) (hsub : sub.Leads [v] A P) (hrow : A row)
    (hi : input.GivesOnly kept A) (h : s.GivesOnly kept P) :
    (withinStep v sub known row candidates input s).GivesOnly kept P := by
  have hstay (q : Pipe) (hq : q.GivesOnly kept P) :
      (Pipe.within v sub known row candidates q input).GivesOnly kept P := ⟨hq, A, hi, hrow, hsub⟩
  unfold withinStep Step.feed
  exact h.feedOr hstay hstay (fun b q _ hb hq => .yielding (hstay q hq) hb)
    fun _ _ _ => .silent ⟨A, hi, hrow, hsub⟩ nofun

theorem namesStep_givesOnly {name : TermPattern} (known : Option (List Term))
    (hgive : ∀ row names m, A row → m ∈ nameRows name names row → P m) (h : s.GivesOnly kept A) :
    (namesStep ctx name known s).GivesOnly kept P := by
  have hstay (phase : Phase) (known : Option (List Term)) (q : Pipe) (hq : q.GivesOnly kept A) :
      (Pipe.names phase name known [] q).GivesOnly kept P :=
    ⟨fun b hb => absurd hb (by simp), A, hq, hgive⟩
  unfold namesStep Step.feed
  refine h.feedOr (hstay _ _) (hstay _ _) (fun row q state hrow hq => ?_)
    fun q _ hq => .silent (hstay _ _ _ hq.close) nofun
  unfold namesRow
  split
  · next names _ _ _ =>
    exact .silent ⟨fun m hm => hgive row names m hrow hm, A, hq, hgive⟩ nofun
  · exact .silent (hstay _ _ q hq) nofun

theorem concatFirstStep_givesOnly (hr : right.GivesOnly kept P) (h : s.GivesOnly kept P) :
    (concatFirstStep right s).GivesOnly kept P := by
  unfold concatFirstStep Step.feed
  exact h.feedOr (fun _ hq => ⟨hq, hr⟩) (fun _ hq => ⟨hq, hr⟩)
    (fun _ _ _ hb hq => .yielding ⟨hq, hr⟩ hb) fun _ _ hq => .silent ⟨hq.close, hr⟩ nofun

theorem concatRestStep_givesOnly (hl : left.GivesOnly kept P) (h : s.GivesOnly kept P) :
    (concatRestStep left s).GivesOnly kept P := by
  unfold concatRestStep Step.feed
  exact h.feedOr (fun _ hq => ⟨hl, hq⟩) (fun _ hq => ⟨hl, hq⟩)
    (fun _ _ _ hb hq => .yielding ⟨hl, hq⟩ hb) fun _ _ hq => .silent ⟨hl, hq⟩ nofun

end Stages

/-- The rows that the scope of a pipeline keeps, if there is a scope, have the property. -/
def ScopeHas (kept : Binding → Prop) (scope : Option SharedRows) : Prop :=
  ∀ shared ∈ scope, ∀ b ∈ shared.rows, kept b

theorem replayStep_givesOnly {scope : Option SharedRows} {phase : Phase} {position : Nat}
    {state : RunState} (hscope : ScopeHas kept scope) (h : ∀ b, kept b → P b) :
    (replayStep scope phase position state).GivesOnly kept P := by
  unfold replayStep
  split
  · exact .silent h nofun
  · next shared =>
    split
    · exact .silent h nofun
    · split
      · next row hrow =>
        have hkept : kept row := hscope shared rfl row (Array.mem_of_getElem? hrow)
        exact .yielding h (h row hkept)
      · split
        · exact .silent h nofun
        · exact .silent h nofun

/-- What a scope keeps has the property of the rows of its input. -/
theorem absorb_has {shared : SharedRows} {s : Step} (hrows : ∀ b ∈ shared.rows, A b)
    (h : s.GivesOnly kept A) : ∀ b ∈ (shared.absorb s.signal).rows, A b := by
  cases hs : s.signal with
  | yield row =>
    intro b hb
    rcases Array.mem_push.1 hb with hb | rfl
    · exact hrows b hb
    · exact h.row b hs
  | done | fail _ | skip | await => exact hrows

theorem Pipe.AtHand.givesOnly {state : RunState} {p q : Pipe} {signal : Signal}
    (h : AtHand state p signal q) (hp : p.GivesOnly kept P) :
    (Step.quiet signal q state).GivesOnly kept P := by
  cases h with
  | spent | bindings_nil | script_nil | concatEnd => exact .silent hp nofun
  | bindings_cons =>
    obtain ⟨hrow, hrest⟩ := List.forall_mem_cons.1 hp
    exact .yielding hrest hrow
  | script_row =>
    exact .yielding (fun c hc => hp c (List.mem_cons_of_mem _ hc)) (hp _ List.mem_cons_self)
  | script_fail => exact .silent (fun c hc => hp c (List.mem_cons_of_mem _ hc)) nofun
  | scan_cancelled | graphs_cancelled =>
    obtain ⟨A, hinput, -, hgive⟩ := hp
    exact .silent ⟨A, hinput, trivial, hgive⟩ nofun
  | names_cons =>
    obtain ⟨hpending, A, hinput, hgive⟩ := hp
    obtain ⟨hrow, hrest⟩ := List.forall_mem_cons.1 hpending
    exact .yielding ⟨hrest, A, hinput, hgive⟩ hrow
  | order_nil =>
    obtain ⟨hat, hinput⟩ := hp
    exact .silent ⟨hat, hinput⟩ nofun
  | order_cons =>
    obtain ⟨hat, hinput⟩ := hp
    obtain ⟨hrow, hrest⟩ := List.forall_mem_cons.1 hat
    exact .yielding ⟨hrest, hinput⟩ hrow

/-- **What a pipeline can give.** A step gives no row without the property of the pipeline, and
leaves a pipeline that can give no such row either. -/
theorem Pipe.GivesOnly.step (ctx : Context) {p : Pipe} (hp : p.GivesOnly kept P)
    {scope : Option SharedRows} (hscope : ScopeHas kept scope) (state : RunState) :
    (p.step ctx scope state).GivesOnly kept P := by
  induction p, state using step_induction generalizing kept P scope with
  | at_hand h =>
    rw [h.step_eq]
    exact h.givesOnly hp
  | tracked ih =>
    obtain ⟨hrow, hin⟩ := ih hp hscope
    rw [step_tracked]
    exact ⟨hrow, hin⟩
  | replay hrun =>
    rw [step_replay hrun]
    exact replayStep_givesOnly hscope hp
  | @share shared input body state ihi ihb =>
    obtain ⟨A, hrows, hinput, hbody⟩ := hp
    obtain ⟨hrow, hstay⟩ := ihb hbody fun _ hs => Option.some.inj hs ▸ hrows
    rw [step_share]
    split
    · have hclear : ∀ b ∈ shared.clear.rows, A b := hrows
      obtain ⟨hkept, hin⟩ := settle_givesOnly hclear hinput (fun _ => input.close)
        (Pipe.GivesOnly.close hinput) (body.step ctx (some shared) state).events
      refine ⟨fun b hb => hrow b ?_, A, hkept, hin, hstay⟩
      have hsignal : (if (body.step ctx (some shared) state).signal = .await then Signal.skip
        else (body.step ctx (some shared) state).signal) = .yield b := hb
      split at hsignal
      · cases hsignal
      · exact hsignal
    · split
      · have hread := ihi (body.step ctx (some shared) state).state hinput hscope
        refine .silent ⟨A, absorb_has hrows hread, hread.pipe, hstay⟩ fun b hb => ?_
        split at hb <;> cases hb
      · exact ⟨hrow, A, hrows, hinput, hstay⟩
  | scan_reading hrun =>
    obtain ⟨A, hinput, hat, hgive⟩ := hp
    rw [step_scan_reading hrun]
    exact scanItem_givesOnly _ hinput hat hgive
  | scan hrun ha ih =>
    obtain ⟨A, hinput, -, hgive⟩ := hp
    rw [step_scan hrun ha]
    exact scanStep_givesOnly (ih hinput hscope) hgive
  | filter hrun ih =>
    rw [step_filter hrun]
    exact filterStep_givesOnly _ (ih hp hscope)
  | join_gathering hrun ih =>
    obtain ⟨A, B, hl, hr, hat, hkind⟩ := hp
    rw [step_join_gathering hrun]
    exact joinRightStep_givesOnly hkind hat hl (ih hr hscope)
  | join_idle hrun ih =>
    obtain ⟨A, B, hl, hr, hat, hkind⟩ := hp
    rw [step_join_idle hrun]
    exact joinLeftStep_givesOnly hkind hat hr (ih hl hscope)
  | join_trying hrun =>
    obtain ⟨A, B, hl, hr, hat, hkind⟩ := hp
    rw [step_join_trying hrun]
    exact joinTry_givesOnly hkind hat hl hr
  | optional hrun ih =>
    obtain ⟨A, hinput, hsub⟩ := hp
    rw [step_optional hrun]
    exact optionalStep_givesOnly _ hsub (ih hinput hscope)
  | probing ih =>
    obtain ⟨hprobe, A, hinput, hrow, hsub⟩ := hp
    rw [step_probing]
    exact probeStep_givesOnly _ _ hsub hrow hinput (ih hprobe hscope)
  | graphs_trying hrun =>
    obtain ⟨A, hinput, hat, hsub⟩ := hp
    rw [step_graphs_trying hrun]
    exact graphsTry_givesOnly _ _ hsub hat hinput
  | graphs hrun ha ih =>
    obtain ⟨A, hinput, -, hsub⟩ := hp
    rw [step_graphs hrun ha]
    exact graphsStep_givesOnly _ hsub (ih hinput hscope)
  | within ih =>
    obtain ⟨hinner, A, hinput, hrow, hsub⟩ := hp
    rw [step_within]
    exact withinStep_givesOnly _ _ hsub hrow hinput (ih hinner hscope)
  | names hrun ih =>
    obtain ⟨-, A, hinput, hgive⟩ := hp
    rw [step_names_nil hrun]
    exact namesStep_givesOnly _ hgive (ih hinput hscope)
  | table_nil hrun =>
    obtain ⟨A, hinput, -, hgive⟩ := hp
    rw [step_table_nil hrun]
    exact .silent ⟨A, hinput.close, trivial, hgive⟩ nofun
  | table_trying hrun hrows =>
    obtain ⟨A, hinput, hat, hgive⟩ := hp
    rw [step_table_trying hrun hrows]
    exact tableTry_givesOnly hinput hat hgive
  | table_idle hrun hrows ih =>
    obtain ⟨A, hinput, -, hgive⟩ := hp
    rw [step_table_idle hrun hrows]
    exact tableStep_givesOnly (ih hinput hscope) hgive
  | order hrun ih =>
    obtain ⟨hat, hinput⟩ := hp
    rw [step_order_gathering hrun]
    exact orderStep_givesOnly _ hat (ih hinput hscope)
  | project hrun ih =>
    rw [step_project hrun]
    exact projectStep_givesOnly _ (ih hp hscope)
  | distinct hrun ih =>
    rw [step_distinct hrun]
    exact distinctStep_givesOnly _ _ (ih hp hscope)
  | slice_zero hrun =>
    rw [step_slice_zero hrun]
    exact .silent (Pipe.GivesOnly.close hp) nofun
  | slice hrun hzero ih =>
    rw [step_slice hrun hzero]
    exact sliceStep_givesOnly _ _ (ih hp hscope)
  | concat_first hrun ih =>
    rw [step_concat_first hrun]
    exact concatFirstStep_givesOnly hp.2 (ih hp.1 hscope)
  | concat_rest hrun ih =>
    rw [step_concat_rest hrun]
    exact concatRestStep_givesOnly hp.1 (ih hp.2 hscope)

end TripleQuery
