import TripleQuery.Proofs.Flow.Placement
import TripleQuery.Proofs.Pipe.Joins
import TripleQuery.Proofs.Pipe.Share

/-!
# Runs of operators

The pipeline of a plain operator comes to the flow of the operator, whatever scope it stands in and
whatever flows into it (`Op.pipe_gives`). The induction is on the operator; a union takes it into
the scope of its shared input, and the subtrees that are compiled in the middle of a run take it
out of every scope.
-/

namespace TripleQuery

variable {ctx : Context} {all : Option Flow} {src : Source} {seed : Seed} {sf : Option Flow}

/-! ## Seeds -/

/-- What is known of a seed: what its pipeline comes to, if it has one. -/
inductive Feeds (ctx : Context) (all : Option Flow) : Seed → Option Flow → Prop where
  | identity : Feeds ctx all .identity none
  | input {p : Pipe} {f : Flow} (hp : Gives ctx all p f) (hc : p.Counted) :
    Feeds ctx all (.input p) (some f)

theorem Feeds.counted (h : Feeds ctx all seed sf) : seed.Counted := by
  cases h with
  | identity => trivial
  | input _ hc => exact hc

theorem Feeds.toPipe (h : Feeds ctx all seed sf) : Gives ctx all seed.toPipe (.ofSeed sf) := by
  cases h with
  | identity => exact fun known => Runs.bindings [.empty] rfl
  | input hp _ => exact hp

theorem Feeds.joined (h : Feeds ctx all seed sf) {own : Pipe} {f : Flow}
    (ho : Gives ctx all own f) : Gives ctx all (seed.joined own) (.apart ctx.maxRows sf f) := by
  cases h with
  | identity => exact ho
  | input hp _ => exact fun known => Runs.join hp (ho known)

/-- The seed of a row. -/
theorem feeds_single (row : Binding) :
    Feeds ctx none (.input (.single row)) (some (.single row)) :=
  .input (fun _ => Runs.bindings [row] rfl) trivial

/-- A reader as the seed of a branch. -/
theorem feeds_replay (f : Flow) : Feeds ctx (some f) (.input (.replay .created 0)) (some f) := by
  have h : Gives ctx (some f) (.replay .created 0) (f.drop 0) :=
    Runs.replay (Nat.zero_le f.rows.length) rfl
  have hdrop : f.drop 0 = f := by cases f <;> rfl
  rw [hdrop] at h
  exact .input h trivial

/-- Two branches over a seed, if it is known what they come to over every seed. -/
theorem Feeds.branched (h : Feeds ctx all seed sf) {l r : Seed → Pipe} {fl fr : Option Flow → Flow}
    (hl : ∀ {all seed sf}, Feeds ctx all seed sf → Gives ctx all (l seed) (fl sf))
    (hr : ∀ {all seed sf}, Feeds ctx all seed sf → Gives ctx all (r seed) (fr sf))
    (hc : (seed.branched ctx.maxRows l r).Counted) :
    Gives ctx all (seed.branched ctx.maxRows l r)
      (fl (Flow.shared ctx.maxRows sf) ++ fr (Flow.shared ctx.maxRows sf)) := by
  cases h with
  | identity => exact Runs.concat_pair (hl .identity) (hr .identity)
  | @input p f hp _ =>
    have hreader : Feeds ctx (some (f.limit ctx.maxRows 0)) (.input (.replay .created 0)) _ :=
      feeds_replay _
    exact Runs.share hp (Runs.concat_pair (hl hreader) (hr hreader)) hc

/-! ## Scans with a filter among them -/

/-- A flow with a condition applied to it, if there is one. -/
def Flow.filterAll (condition : Option Expr) (f : Flow) : Flow :=
  condition.elim f fun e => f.filter e.admits

/-- Scans come to the same whether a filter is among them or follows them. The variables that count
as bound are bound already, but for that of the slot, which the next scan binds. -/
theorem Runs.scanChain {known : Nat} (hsrc : ctx.dataset = src.dataset) (slot : GraphSlot)
    (patterns : List TriplePattern) {condition : Option Expr} {bound : List Variable} {p : Pipe}
    {f : Flow} (hb : ∀ b ∈ f.rows, ∀ v ∈ bound, v ∈ slot.vars ∨ b.contains v = true)
    (hp : Runs ctx all known p f) :
    Runs ctx all known (TripleQuery.scanChain slot condition bound patterns p)
      ((src.scanAll slot patterns f).filterAll condition) := by
  induction patterns generalizing condition bound p f with
  | nil =>
    cases condition with
    | none => exact hp
    | some e => exact hp.filter e rfl
  | cons pattern patterns ih =>
    have hscan : Runs ctx all known (.scan .created pattern slot .idle p)
        (f.expand (src.scanRows pattern slot)) := hp.scan hsrc pattern slot rfl
    have hbinds : (f.expand (src.scanRows pattern slot)).Binds (bound ++ pattern.vars) := by
      intro m hm v hv
      rw [Flow.rows_expand] at hm
      obtain ⟨b, hb', hm⟩ := List.mem_flatMap.1 hm
      obtain ⟨hext, hnew⟩ := Source.scanRows_binds hm
      rcases List.mem_append.1 hv with hv | hv
      · rcases hb b hb' v hv with hslot | hold
        · exact hnew v (.inr hslot)
        · exact Binding.contains_of_extends hext hold
      · exact hnew v (.inl hv)
    have hbound : ∀ m ∈ (f.expand (src.scanRows pattern slot)).rows,
        ∀ v ∈ bound ++ pattern.vars, v ∈ slot.vars ∨ m.contains v = true :=
      fun m hm v hv => .inr (hbinds m hm v hv)
    cases condition with
    | none => exact ih hbound hscan
    | some e =>
      rw [TripleQuery.scanChain]
      by_cases hcovered : coveredBy e.mentions (bound ++ pattern.vars) = true
      · simp only [if_pos hcovered]
        have hmentions : (f.expand (src.scanRows pattern slot)).Binds e.mentions := by
          intro m hm v hv
          have hin := List.all_eq_true.1 hcovered v hv
          exact hbinds m hm v (List.contains_iff_mem.1 hin)
        have hfilter : Runs ctx all known
            (.filter .created e (.scan .created pattern slot .idle p))
            ((f.expand (src.scanRows pattern slot)).filter e.admits) := hscan.filter e rfl
        have hrest : ∀ m ∈ ((f.expand (src.scanRows pattern slot)).filter e.admits).rows,
            ∀ v ∈ bound ++ pattern.vars, v ∈ slot.vars ∨ m.contains v = true := by
          intro m hm
          unfold Flow.filter at hm
          rw [Flow.rows_expand, ← Flow.filter_eq_flatMap] at hm
          exact hbound m (List.mem_of_mem_filter hm)
        show Runs ctx all known _ ((src.scanAll slot patterns _).filter e.admits)
        rw [← Source.filter_scanAll hmentions]
        exact ih hrest hfilter
      · simp only [if_neg hcovered]
        exact ih hbound hscan

theorem Runs.patterns (hsrc : ctx.dataset = src.dataset) (slot : GraphSlot)
    (condition : Option Expr) (patterns : List TriplePattern) (h : Feeds ctx all seed sf) :
    Gives ctx all (compilePatterns slot condition patterns seed)
      ((src.scanAll slot patterns (.ofSeed sf)).filterAll condition) :=
  fun known => (h.toPipe known).scanChain hsrc slot patterns fun _ _ _ hv => .inl hv

/-! ## Operators -/

/-- The flow of an operator that is a pattern. -/
theorem Op.flow_of_patterns {cfg : Config} {op : Op} {g : ActiveGraph} {slot : GraphSlot}
    {patterns : List TriplePattern} (h : op.patterns? g = some (slot, patterns)) :
    op.flow src cfg g sf = src.scanAll slot patterns (.ofSeed sf) := by
  cases op with
  | bgp | quadPattern =>
    cases h
    rfl
  | _ => cases h

theorem Op.filtered_gives (hsrc : ctx.dataset = src.dataset) (e : Expr) (g : ActiveGraph)
    {sub : Op} (h : Feeds ctx all seed sf) {own : Pipe}
    (ho : Gives ctx all own (sub.flow src ctx.config g sf)) :
    Gives ctx all (sub.filtered ctx e g seed own)
      ((sub.flow src ctx.config g sf).filter e.admits) := by
  have hfilter : Gives ctx all (.filter .created e own)
      ((sub.flow src ctx.config g sf).filter e.admits) := fun known => (ho known).filter e rfl
  unfold Op.filtered
  cases hpatterns : sub.patterns? g with
  | none => exact hfilter
  | some slotted =>
    obtain ⟨slot, patterns⟩ := slotted
    cases ctx.config.filterPlacement with
    | false => exact hfilter
    | true =>
      rw [Op.flow_of_patterns hpatterns]
      exact Runs.patterns hsrc slot (some e) patterns h

/-- **Pipelines come to flows.** The pipeline of a plain operator comes to the flow of the
operator. -/
theorem Op.pipe_gives {op : Op} (hop : op.Plain) (hsrc : ctx.dataset = src.dataset)
    (g : ActiveGraph) (h : Feeds ctx all seed sf) :
    Gives ctx all (op.pipe ctx g seed) (op.flow src ctx.config g sf) := by
  induction op generalizing all g seed sf with
  | bgp patterns => exact Runs.patterns hsrc _ none patterns h
  | quadPattern name patterns => exact Runs.patterns hsrc _ none patterns h
  | datasetNames name => exact fun known => (h.toPipe known).names hsrc name rfl
  | table t => exact fun known => (h.toPipe known).table t.rows rfl
  | extension => cases hop
  | join l r ihl ihr =>
    have hl := ihl hop.1 g h
    exact ihr hop.2 g (.input hl (Op.pipe_counted hop.1 ctx g seed h.counted).1)
  | leftJoin l r condition ihl ihr =>
    have hl : Gives ctx all (l.pipe ctx g .identity) (l.flow src ctx.config g none) :=
      ihl hop.1 g .identity
    rw [pipe, flow]
    refine h.joined ?_
    by_cases hprobe : ctx.config.leftJoin = .auto ∧ r.isProbeable
    · rw [if_pos hprobe, if_pos hprobe]
      exact fun known => (hl known).optional hop.2
        (fun row => ihr hop.2 g (feeds_single row) 0) rfl
    · rw [if_neg hprobe, if_neg hprobe]
      exact fun known => Runs.join hl (ihr hop.2 g .identity known)
  | union l r ihl ihr =>
    have hcounted : ((Op.union l r).pipe ctx g seed).Counted :=
      (pipe_counted hop ctx g seed h.counted).1
    exact h.branched (ihl hop.1 g) (ihr hop.2 g) hcounted
  | filter e sub ih =>
    rw [pipe, flow]
    by_cases hc : coveredBy e.mentions sub.mentions
    · rw [if_pos hc, if_pos hc]
      exact sub.filtered_gives hsrc e g h (ih hop g h)
    · rw [if_neg hc, if_neg hc]
      exact h.joined (sub.filtered_gives hsrc e g .identity (ih hop g .identity))
  | graph name sub ih =>
    cases name with
    | term name => exact ih hop (.named name) h
    | var v =>
      have hsub : sub.Plain := hop
      have hk (name : Term) (row : Binding) :
          Runs ctx none 0 (sub.pipe ctx (.named name) (.input (.single row)))
            (sub.flow src ctx.config (.named name) (some (.single row))) :=
        ih hsub (.named name) (feeds_single row) 0
      exact fun known => (h.toPipe known).graphs hsrc hsub hk rfl
  | order keys sub ih =>
    exact h.joined fun known => (ih hop g .identity known).order keys rfl
  | project vars sub ih =>
    exact h.joined fun known => (ih hop g .identity known).project vars rfl
  | distinct sub ih =>
    exact h.joined fun known => (ih hop g .identity known).distinct ctx.maxRows rfl
  | slice offset limit sub ih =>
    exact h.joined fun known => (ih hop g .identity known).slice offset limit rfl

end TripleQuery
