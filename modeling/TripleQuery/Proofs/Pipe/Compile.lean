import TripleQuery.Proofs.Pipe.Readers

/-!
# Pipelines of plain operators

Compiling an operator without extensions cannot fail and sets nothing off, so it is a function to
pipelines (`compile_plain`). The pipeline has the open readers of its seed and counts its own
(`Op.pipe_counted`).
-/

namespace TripleQuery

/-! ## The pipelines -/

/-- A pipeline that reads no seed, joined with the seed, if there is an input. -/
def Seed.joined (seed : Seed) (own : Pipe) : Pipe :=
  match seed with
  | .identity => own
  | .input p => .joining .inner none p own

/-- Two pipelines over a seed, one after the other; an input is shared between them. -/
def Seed.branched (limit : Nat) (seed : Seed) (left right : Seed → Pipe) : Pipe :=
  match seed with
  | .identity => .concatAll [left .identity, right .identity]
  | .input p =>
    .share (.forTwo limit) p
      (.concatAll [left (.input (.replay .created 0)), right (.input (.replay .created 0))])

/-- A filter over an operator: among its scans if it is a pattern and filters are to be placed,
else on top of its pipeline. -/
def Op.filtered (ctx : Context) (e : Expr) (g : ActiveGraph) (sub : Op) (seed : Seed)
    (own : Pipe) : Pipe :=
  match sub.patterns? g, ctx.config.filterPlacement with
  | some (slot, patterns), true => compilePatterns slot (some e) patterns seed
  | _, _ => .filter .created e own

/-- The pipeline of an operator over a seed. Extensions have none of their own. -/
def Op.pipe (ctx : Context) : Op → ActiveGraph → Seed → Pipe
  | .bgp patterns, g, seed => compilePatterns (.ofActive g) none patterns seed
  | .quadPattern name patterns, _, seed => compilePatterns (.ofPattern name) none patterns seed
  | .datasetNames name, _, seed => .names .created name none [] seed.toPipe
  | .table t, _, seed => .table .created t.rows .idle seed.toPipe
  | .extension _, _, seed => seed.toPipe
  | .join l r, g, seed => r.pipe ctx g (.input (l.pipe ctx g seed))
  | .leftJoin l r condition, g, seed => seed.joined <|
    if ctx.config.leftJoin = .auto ∧ r.isProbeable then
      .optional .created r condition g (l.pipe ctx g .identity)
    else .joining .left condition (l.pipe ctx g .identity) (r.pipe ctx g .identity)
  | .union l r, g, seed => seed.branched ctx.maxRows (l.pipe ctx g) (r.pipe ctx g)
  | .filter e sub, g, seed =>
    if coveredBy e.mentions sub.mentions then sub.filtered ctx e g seed (sub.pipe ctx g seed)
    else seed.joined (sub.filtered ctx e g .identity (sub.pipe ctx g .identity))
  | .graph (.term name) sub, _, seed => sub.pipe ctx (.named name) seed
  | .graph (.var v) sub, _, seed => .graphs .created v sub none .idle seed.toPipe
  | .order keys sub, g, seed =>
    seed.joined (.order .created keys (.gathering #[]) (sub.pipe ctx g .identity))
  | .project vars sub, g, seed => seed.joined (.project .created vars (sub.pipe ctx g .identity))
  | .distinct sub, g, seed =>
    seed.joined (.distinct .created [] ctx.maxRows (sub.pipe ctx g .identity))
  | .slice offset limit sub, g, seed =>
    seed.joined (.slice .created offset limit (sub.pipe ctx g .identity))

/-! ## Compiling -/

theorem apart_ok (seed : Seed) {build : Seed → Compiled} {own : Pipe}
    (h : build .identity = .ok own) : seed.apart build = .ok (seed.joined own) := by
  cases seed with
  | identity => exact h
  | input p =>
    show ((build .identity).map (.joining .inner none p)).orClose p = _
    rw [h]
    rfl

theorem through_ok (seed : Seed) {seedable : Bool} {build : Seed → Compiled} {own : Seed → Pipe}
    (h : ∀ seed, build seed = .ok (own seed)) :
    seed.through seedable build =
      .ok (if seedable then own seed else seed.joined (own .identity)) := by
  cases seedable with
  | true => exact h seed
  | false => exact apart_ok seed (h .identity)

theorem unite_ok (limit : Nat) (seed : Seed) {left right : Seed → Compiled} {l r : Seed → Pipe}
    (hl : ∀ seed, left seed = .ok (l seed)) (hr : ∀ seed, right seed = .ok (r seed)) :
    unite limit left right seed = .ok (seed.branched limit l r) := by
  cases seed with
  | identity =>
    show (left .identity).bind (fun l => ((right .identity).map fun r =>
      .concatAll [l, r]).orClose l) = _
    rw [hl, hr]
    rfl
  | input p =>
    show shareBetween p limit left right = _
    unfold shareBetween
    simp only [hl, hr]
    rfl

theorem compileFilter_ok {e : Expr} {sub : Op} {ctx : Context} {g : ActiveGraph}
    {build : Seed → Compiled} {seed : Seed} {own : Pipe} (h : build seed = .ok own) :
    compileFilter e sub (ctx.inGraph g) build seed = .ok (sub.filtered ctx e g seed own) := by
  unfold compileFilter Op.filtered
  rw [h]
  show (match sub.patterns? g, ctx.config.filterPlacement with
    | some (slot, patterns), true => .ok (compilePatterns slot (some e) patterns seed)
    | _, _ => .ok (.filter .created e own) : Compiled) = _
  split <;> rfl

/-- **Plain operators compile.** -/
theorem compile_plain {op : Op} (hop : op.Plain) (ctx : Context) (g : ActiveGraph) (seed : Seed) :
    compile op (ctx.inGraph g) seed = .ok (op.pipe ctx g seed) := by
  induction op generalizing g seed with
  | bgp | quadPattern | datasetNames | table => rfl
  | extension => cases hop
  | join l r ihl ihr =>
    show (compile l (ctx.inGraph g) seed).bind (fun p => compile r (ctx.inGraph g) (.input p)) = _
    rw [ihl hop.1]
    show (compile r (ctx.inGraph g) (.input (l.pipe ctx g seed))).after [] = _
    rw [ihr hop.2]
    rfl
  | leftJoin l r condition ihl ihr =>
    refine (Seed.through_unseedable rfl _).trans (apart_ok seed ?_)
    rw [ihl hop.1]
    show (if ctx.config.leftJoin = .auto ∧ r.isProbeable = true then _
      else _ : Compiled).after [] = _
    by_cases hprobe : ctx.config.leftJoin = .auto ∧ r.isProbeable = true
    · rw [if_pos hprobe, if_pos hprobe]
      rfl
    · rw [if_neg hprobe, if_neg hprobe, ihr hop.2]
      rfl
  | union l r ihl ihr => exact unite_ok ctx.maxRows seed (ihl hop.1 g) (ihr hop.2 g)
  | filter e sub ih => exact through_ok seed fun seed => compileFilter_ok (ih hop g seed)
  | graph name sub ih =>
    cases name with
    | term name => exact ih hop (.named name) seed
    | var v => rfl
  | order keys sub ih | project keys sub ih | distinct sub ih | slice _ _ sub ih =>
    refine (Seed.through_unseedable rfl _).trans (apart_ok seed ?_)
    rw [ih hop]
    rfl

/-! ## Compiling in the middle of a run -/

section Midway

variable {sub : Op} (hsub : sub.Plain) (ctx : Context)

include hsub in
theorem optionalRow_plain (condition : Option Expr) (g : ActiveGraph) (row : Binding)
    (input : Pipe) (state : RunState) :
    optionalRow ctx sub condition g row input state =
      .quiet .skip (.probing sub condition g row false
        (sub.pipe ctx g (.input (.single row))) input) state := by
  unfold optionalRow
  rw [compile_plain hsub]
  rfl

theorem graphsTry_error {var : Variable} {row : Binding} {name : Term} {c : Binding.Conflict}
    (h : row.extend var name = .error c) (known : Option (List Term)) (names : List Term)
    (input : Pipe) (state : RunState) :
    graphsTry ctx var sub known row (name :: names) input state =
      .quiet .skip (.graphs .active var sub known (.trying row names) input) state := by
  unfold graphsTry
  simp only [h]

include hsub in
theorem graphsTry_ok {var : Variable} {row seed : Binding} {name : Term}
    (h : row.extend var name = .ok seed) (known : Option (List Term)) (names : List Term)
    (input : Pipe) (state : RunState) :
    graphsTry ctx var sub known row (name :: names) input state =
      .quiet .skip (.within var sub known row names
        (sub.pipe ctx (.named name) (.input (.single seed))) input) state := by
  unfold graphsTry
  simp only [h]
  rw [compile_plain hsub]
  rfl

end Midway

/-! ## Their readers -/

namespace Seed

/-- The open readers of a seed. -/
def readers : Seed → Nat
  | identity => 0
  | input p => p.readers

/-- The scopes in a seed have counted their readers. -/
def Counted : Seed → Prop
  | identity => True
  | input p => p.Counted

theorem toPipe_counted {seed : Seed} (h : seed.Counted) :
    seed.toPipe.Counted ∧ seed.toPipe.readers = seed.readers := by
  cases seed with
  | identity => exact ⟨trivial, rfl⟩
  | input p => exact ⟨h, rfl⟩

theorem joined_counted {seed : Seed} (h : seed.Counted) {own : Pipe}
    (ho : own.Counted ∧ own.readers = 0) :
    (seed.joined own).Counted ∧ (seed.joined own).readers = seed.readers := by
  cases seed with
  | identity => exact ho
  | input p =>
    refine ⟨⟨h, ho.1⟩, ?_⟩
    show p.readers + own.readers = p.readers
    rw [ho.2, Nat.add_zero]

theorem branched_counted {seed : Seed} (h : seed.Counted) (limit : Nat) {left right : Seed → Pipe}
    (hl : ∀ seed, seed.Counted → (left seed).Counted ∧ (left seed).readers = seed.readers)
    (hr : ∀ seed, seed.Counted → (right seed).Counted ∧ (right seed).readers = seed.readers) :
    (seed.branched limit left right).Counted ∧
      (seed.branched limit left right).readers = seed.readers := by
  cases seed with
  | identity =>
    obtain ⟨hlc, hlr⟩ := hl .identity trivial
    obtain ⟨hrc, hrr⟩ := hr .identity trivial
    refine ⟨⟨hlc, hrc, trivial⟩, ?_⟩
    show (left .identity).readers + ((right .identity).readers + 0) = 0
    rw [hlr, hrr]
    rfl
  | input p =>
    let reader : Seed := .input (.replay .created 0)
    obtain ⟨hlc, hlr⟩ := hl reader trivial
    obtain ⟨hrc, hrr⟩ := hr reader trivial
    refine ⟨⟨⟨?_, fun hzero => ?_⟩, h, hlc, hrc, trivial⟩, rfl⟩
    · show 2 = (left reader).readers + ((right reader).readers + 0)
      rw [hlr, hrr]
      rfl
    · cases hzero

end Seed

theorem scanChain_counted (slot : GraphSlot) (patterns : List TriplePattern) :
    ∀ (condition : Option Expr) (bound : List Variable) {p : Pipe}, p.Counted →
      (scanChain slot condition bound patterns p).Counted ∧
        (scanChain slot condition bound patterns p).readers = p.readers := by
  induction patterns with
  | nil =>
    intro condition bound p hp
    cases condition <;> exact ⟨hp, rfl⟩
  | cons pattern patterns ih =>
    intro condition bound p hp
    cases condition with
    | none => exact ih none _ hp
    | some e =>
      rw [scanChain]
      by_cases hc : coveredBy e.mentions (bound ++ pattern.vars)
      · simp only [if_pos hc]
        exact ih none _ hp
      · simp only [if_neg hc]
        exact ih (some e) _ hp

theorem compilePatterns_counted (slot : GraphSlot) (condition : Option Expr)
    (patterns : List TriplePattern) {seed : Seed} (h : seed.Counted) :
    (compilePatterns slot condition patterns seed).Counted ∧
      (compilePatterns slot condition patterns seed).readers = seed.readers := by
  obtain ⟨hc, hr⟩ := scanChain_counted slot patterns condition slot.vars (Seed.toPipe_counted h).1
  exact ⟨hc, hr.trans (Seed.toPipe_counted h).2⟩

theorem Op.filtered_counted (ctx : Context) (e : Expr) (g : ActiveGraph) (sub : Op) (seed : Seed)
    (h : seed.Counted) {own : Pipe} (ho : own.Counted ∧ own.readers = seed.readers) :
    (sub.filtered ctx e g seed own).Counted ∧
      (sub.filtered ctx e g seed own).readers = seed.readers := by
  unfold filtered
  split
  · exact compilePatterns_counted _ _ _ h
  · exact ho

/-- The pipeline of an operator has the open readers of its seed. -/
theorem Op.pipe_counted {op : Op} (hop : op.Plain) (ctx : Context) (g : ActiveGraph) (seed : Seed)
    (h : seed.Counted) :
    (op.pipe ctx g seed).Counted ∧ (op.pipe ctx g seed).readers = seed.readers := by
  induction op generalizing g seed with
  | bgp | quadPattern => exact compilePatterns_counted _ _ _ h
  | datasetNames | table => exact Seed.toPipe_counted h
  | extension => cases hop
  | join l r ihl ihr =>
    obtain ⟨hlc, hlr⟩ := ihl hop.1 g seed h
    obtain ⟨hrc, hrr⟩ := ihr hop.2 g (.input (l.pipe ctx g seed)) hlc
    exact ⟨hrc, hrr.trans hlr⟩
  | leftJoin l r condition ihl ihr =>
    obtain ⟨hlc, hlr⟩ := ihl hop.1 g .identity trivial
    obtain ⟨hrc, hrr⟩ := ihr hop.2 g .identity trivial
    refine Seed.joined_counted h ?_
    split
    · exact ⟨⟨hop.2, hlc⟩, hlr⟩
    · refine ⟨⟨hlc, hrc⟩, ?_⟩
      show (l.pipe ctx g .identity).readers + (r.pipe ctx g .identity).readers = 0
      rw [hlr, hrr]
      rfl
  | union l r ihl ihr =>
    exact Seed.branched_counted h ctx.maxRows (ihl hop.1 g) (ihr hop.2 g)
  | filter e sub ih =>
    rw [pipe]
    split
    · exact sub.filtered_counted ctx e g seed h (ih hop g seed h)
    · exact Seed.joined_counted h
        (sub.filtered_counted ctx e g .identity trivial (ih hop g .identity trivial))
  | graph name sub ih =>
    cases name with
    | term name => exact ih hop (.named name) seed h
    | var v => exact ⟨⟨hop, (Seed.toPipe_counted h).1⟩, (Seed.toPipe_counted h).2⟩
  | order keys sub ih | project keys sub ih | distinct sub ih | slice _ _ sub ih =>
    exact Seed.joined_counted h (ih hop g .identity trivial)

end TripleQuery
