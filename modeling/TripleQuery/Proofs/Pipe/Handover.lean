import TripleQuery.Exec.Realizers
import TripleQuery.Proofs.Pipe.Ledger

/-!
# Handing over what is owed

Whoever compiles an operator over a seed takes over the closing of the seed. Realizations do so by
contract (`Realizer.Careful`): if one fails it has closed the seed, and else the seed is closed with
the pipeline that it returns. From that it follows for every operator tree (`compile_builds`): a
compiled pipeline owes what the seed owed and what realizations have returned on the way, and after
a failure nothing is owed any more.
-/

namespace TripleQuery

open scoped List

/-! ## Outcomes of compiling -/

namespace Compiled

/-- What is owed for the pipeline, if there is one. -/
def owed (c : Compiled) : List Event :=
  match c.result with
  | .ok p => p.close.2
  | .error _ => []

/-- What was due has happened or is owed for the pipeline, which is tidy. -/
structure Hands (c : Compiled) (due : List Event) : Prop where
  tidy : ∀ p, c.result = .ok p → p.Tidy
  settles : Settles (c.events ++ c.owed) due

end Compiled

/-- The events contain all reports of closing a pipeline. -/
def Covers (done : List Event) (q : Pipe) : Prop :=
  ∀ id, reports id q.close.2 ≤ reports id done

/-- Besides, the same holds of closing the pipelines that were built on the way. -/
structure Compiled.Builds (c : Compiled) (due : List Event) (built : Pipe → Prop) : Prop
    extends c.Hands due where
  covers : ∀ q, built q → Covers (c.events ++ c.owed) q

theorem Covers.perm {done done' : List Event} {q : Pipe} (h : Covers done q) (hd : done ~ done') :
    Covers done' q := by
  intro id
  unfold reports
  rw [← hd.countP_eq]
  exact h id

theorem Covers.append_right {done : List Event} {q : Pipe} (h : Covers done q)
    (more : List Event) : Covers (done ++ more) q := by
  intro id
  have hdone := h id
  rw [reports_append]
  omega

namespace Compiled

variable {c : Compiled} {due : List Event} {built : Pipe → Prop} {p : Pipe}

theorem Hands.ok (hp : p.Tidy) (hdue : p.close.2 ~ due) : (Compiled.ok p).Hands due where
  tidy q hq := by
    cases hq
    exact hp
  settles := p.settles_close.perm (.refl _) hdue

/-- After a failure there is no pipeline. -/
theorem tidy_error (e : ExecError) (events : List Event) (q : Pipe)
    (hq : (Compiled.mk (.error e) events).result = .ok q) : q.Tidy := by
  cases hq

theorem Hands.refuse (e : ExecError) (p : Pipe) : (Compiled.refuse e p).Hands p.close.2 where
  tidy := tidy_error e p.close.2
  settles := by
    show Settles (p.close.2 ++ []) p.close.2
    rw [List.append_nil]
    exact p.settles_close

theorem Hands.builds (h : c.Hands due) : c.Builds due fun q => c.result = .ok q := by
  refine ⟨h, fun q hq id => ?_⟩
  rw [owed, hq, reports_append]
  exact Nat.le_add_left _ _

namespace Builds

theorem ok (hp : p.Tidy) (hdue : p.close.2 ~ due) : (Compiled.ok p).Builds due fun _ => False :=
  ⟨.ok hp hdue, fun _ hq => hq.elim⟩

theorem weaken {built' : Pipe → Prop} (h : c.Builds due built) (hb : ∀ q, built' q → built q) :
    c.Builds due built' :=
  ⟨h.toHands, fun q hq => h.covers q (hb q hq)⟩

theorem perm {due' : List Event} (h : c.Builds due built) (hdue : due ~ due') :
    c.Builds due' built :=
  ⟨⟨h.tidy, h.settles.perm (.refl _) hdue⟩, h.covers⟩

/-- What was owed after some events is handed on. -/
theorem after {events more : List Event} {before : Pipe → Prop} (h : Settles (events ++ more) due)
    (hb : ∀ q, before q → Covers (events ++ more) q) (hc : c.Builds more built) :
    (c.after events).Builds due fun q => before q ∨ built q where
  tidy := hc.tidy
  settles := by
    show Settles ((events ++ c.events) ++ c.owed) due
    rw [List.append_assoc]
    exact h.trans hc.settles
  covers q hq id := by
    show reports id q.close.2 ≤ reports id ((events ++ c.events) ++ c.owed)
    have hdone := hc.settles.reports id
    simp only [reports_append] at hdone ⊢
    rcases hq with hq | hq
    · have hcovers := hb q hq id
      rw [reports_append] at hcovers
      omega
    · have hcovers := hc.covers q hq id
      rw [reports_append] at hcovers
      omega

theorem bind {next : Pipe → Compiled} {later : Pipe → Pipe → Prop} (h : c.Builds due built)
    (hnext : ∀ p, p.Tidy → (next p).Builds p.close.2 (later p)) :
    (c.bind next).Builds due fun q => built q ∨ ∃ p, c.result = .ok p ∧ later p q := by
  obtain ⟨result, events⟩ := c
  cases result with
  | error e =>
    refine ⟨h.toHands, fun q hq => ?_⟩
    rcases hq with hq | ⟨p, hp, -⟩
    · exact h.covers q hq
    · cases hp
  | ok p =>
    refine (after h.settles h.covers (hnext p (h.tidy p rfl))).weaken fun q hq => ?_
    rcases hq with hq | ⟨p', hp, hq⟩
    · exact .inl hq
    · cases hp
      exact .inr hq

/-- A pipeline that waits for another one is put to use with it, or closed. -/
theorem joined {stage : Pipe → Pipe} {waiting : Pipe} (h : c.Builds due built)
    (hstage : Encloses Pipe.Tidy stage waiting.close.2) :
    ((c.map stage).orClose waiting).Builds (due ++ waiting.close.2) built := by
  obtain ⟨result, events⟩ := c
  have hsettles := h.settles.append waiting.settles_close
  have hcovers (q : Pipe) (hq : built q) := (h.covers q hq).append_right waiting.close.2
  cases result with
  | error e =>
    have hdone : (events ++ (Compiled.mk (.error e) events).owed) ++ waiting.close.2 =
        (events ++ waiting.close.2) ++ [] := by rw [owed, List.append_nil, List.append_nil]
    rw [hdone] at hsettles hcovers
    exact ⟨⟨tidy_error e _, hsettles⟩, hcovers⟩
  | ok p =>
    obtain ⟨htidy, hclose⟩ := hstage p (h.tidy p rfl)
    have hdone : (events ++ (Compiled.mk (.ok p) events).owed) ++ waiting.close.2 ~
        events ++ (stage p).close.2 := by
      rw [owed, List.append_assoc]
      exact hclose.symm.append_left events
    refine ⟨⟨fun q hq => ?_, hsettles.perm hdone (.refl _)⟩, fun q hq => (hcovers q hq).perm hdone⟩
    cases hq
    exact htidy

theorem map {stage : Pipe → Pipe} (h : c.Builds due built) (hstage : Encloses Pipe.Tidy stage []) :
    (c.map stage).Builds due built := by
  obtain ⟨result, events⟩ := c
  cases result with
  | error e => exact ⟨⟨tidy_error e events, h.settles⟩, h.covers⟩
  | ok p =>
    obtain ⟨htidy, hclose⟩ := hstage p (h.tidy p rfl)
    rw [List.append_nil] at hclose
    have hdone := hclose.symm.append_left events
    refine ⟨⟨fun q hq => ?_, h.settles.perm hdone (.refl _)⟩,
      fun q hq => (h.covers q hq).perm hdone⟩
    cases hq
    exact htidy

end Builds

end Compiled

/-! ## The contract of realizations -/

/-- A realization that takes over its seed: if it fails it has closed the seed, and else the seed is
closed with the pipeline that it returns. If it announces that it has built a tracked pipeline,
then that too is closed, or closed with the one it returns. -/
def Realizer.Careful (r : Realizer) : Prop :=
  ∀ ext graph seed, seed.Tidy → (r ext graph seed).Hands seed.close.2

/-- Every realization that is registered is careful. -/
def Registry.Careful (registry : Registry) : Prop :=
  ∀ name r, registry.find? name = some r → r.Careful

theorem Realizer.refuse_careful : Realizer.refuse.Careful :=
  fun ext _ seed _ => .refuse (.unsupported ext.name "refused") seed

theorem Realizer.range_careful : Realizer.range.Careful := by
  intro ext graph seed hseed
  unfold range
  split
  · refine .ok ⟨hseed, trivial⟩ ?_
    show seed.close.2 ++ [] ~ seed.close.2
    rw [List.append_nil]
  · exact .refuse _ seed

theorem Realizer.track_careful : Realizer.track.Careful := by
  intro ext graph seed hseed
  refine ⟨fun q hq => ?_, rfl, fun id => ?_⟩
  · cases hq
    exact hseed
  · have hnone := seed.announcements_close id
    show announcements id (.realized ext.name graph seed.name :: .closed ext.name :: seed.close.2) +
      reports id seed.close.2 ≤
        reports id (.realized ext.name graph seed.name :: .closed ext.name :: seed.close.2)
    unfold announcements at hnone ⊢
    unfold reports
    by_cases hname : ext.name = id <;>
      simp [Event.announces, Event.reports, hnone, hname, Nat.add_comm]

/-! ## Seeds -/

namespace Seed

/-- The scopes in the seed have counted their readers. -/
def Tidy : Seed → Prop
  | identity => True
  | input p => p.Tidy

/-- The seed that each of two branches is built on. -/
def branch : Seed → Seed
  | identity => identity
  | input _ => input (.replay .created 0)

theorem toPipe_tidy {seed : Seed} (h : seed.Tidy) :
    seed.toPipe.Tidy ∧ seed.toPipe.close.2 = seed.close := by
  cases seed with
  | identity => exact ⟨trivial, rfl⟩
  | input p => exact ⟨h, rfl⟩

theorem apart_builds {seed : Seed} (h : seed.Tidy) {build : Seed → Compiled} {built : Pipe → Prop}
    (hbuild : (build .identity).Builds [] built) : (seed.apart build).Builds seed.close built := by
  cases seed with
  | identity => exact hbuild
  | input p =>
    have hstage : Encloses Pipe.Tidy (.joining .inner none p) p.close.2 :=
      fun q hq => ⟨⟨h, hq⟩, List.perm_append_comm⟩
    exact hbuild.joined hstage

theorem through_builds {seed : Seed} (h : seed.Tidy) (seedable : Bool) {build : Seed → Compiled}
    {built : Seed → Pipe → Prop}
    (hbuild : ∀ seed : Seed, seed.Tidy → (build seed).Builds seed.close (built seed)) :
    (seed.through seedable build).Builds seed.close
      (built (if seedable then seed else .identity)) := by
  cases seedable with
  | true => exact hbuild seed h
  | false => exact apart_builds h (hbuild .identity trivial)

end Seed

theorem scanChain_tidy (slot : GraphSlot) (patterns : List TriplePattern) :
    ∀ (condition : Option Expr) (bound : List Variable) {p : Pipe}, p.Tidy →
      (scanChain slot condition bound patterns p).Tidy ∧
        (scanChain slot condition bound patterns p).close.2 = p.close.2 := by
  induction patterns with
  | nil =>
    intro condition bound p hp
    cases condition <;> exact ⟨hp, rfl⟩
  | cons pattern patterns ih =>
    intro condition bound p hp
    cases condition with
    | none => exact ih none _ hp
    | some e =>
      rw [scanChain]
      by_cases hc : coveredBy e.mentions (bound ++ pattern.vars)
      · simp only [if_pos hc]
        exact ih none _ hp
      · simp only [if_neg hc]
        exact ih (some e) _ hp

theorem compilePatterns_builds (slot : GraphSlot) (condition : Option Expr)
    (patterns : List TriplePattern) {seed : Seed} (h : seed.Tidy) :
    (Compiled.ok (compilePatterns slot condition patterns seed)).Builds seed.close
      fun _ => False := by
  obtain ⟨htidy, hclose⟩ := Seed.toPipe_tidy h
  obtain ⟨hchain, hsame⟩ := scanChain_tidy slot patterns condition slot.vars htidy
  refine .ok hchain ?_
  show (scanChain slot condition slot.vars patterns seed.toPipe).close.2 ~ seed.close
  rw [hsame, hclose]

/-! ## Unions -/

theorem encloses_branch {l : Pipe} (hl : l.Tidy) :
    Encloses Pipe.Tidy (fun r => .concatAll [l, r]) l.close.2 := by
  intro r hr
  refine ⟨⟨hl, hr, trivial⟩, ?_⟩
  show l.close.2 ++ (r.close.2 ++ []) ~ r.close.2 ++ l.close.2
  rw [List.append_nil]
  exact List.perm_append_comm

/-- A scope over two readers, some of which may have been closed on the way, hands over what is owed
for its input. -/
theorem share_builds {input : Pipe} (hi : input.Tidy) (limit : Nat) (body : Compiled)
    {built : Pipe → Prop} (hbody : body.Builds [.released, .released] built)
    {shared' : SharedRows} {input' : Pipe} {events : List Event}
    (hsettle : (SharedRows.forTwo limit).settle input (fun _ => input.close) body.events =
      (shared', input', events)) :
    Compiled.Builds ⟨body.result.map (.share shared' input'), events⟩ input.close.2 built := by
  have hcount : releases body.events + releases body.owed = 2 := by
    have hreleases := hbody.settles.releases
    rwa [releases_append] at hreleases
  obtain ⟨hic, his, -⟩ := Pipe.Kept.close hi
  have htwo : (SharedRows.forTwo limit).openReaders ≠ 0 := Nat.succ_ne_zero 1
  obtain ⟨_, _, _, hsettle', hopen, hshut, hi', hmore⟩ :=
    (SharedRows.forTwo limit).settle_conserves body.events hi hic his (fun h => absurd h htwo)
      (by show _ ≤ 2; omega)
  rw [hsettle] at hsettle'
  cases hsettle'
  replace hopen : shared'.openReaders = 2 - releases body.events := hopen
  replace hmore : events ++ shared'.inputDue input' ~ unreleased body.events ++ input.close.2 :=
    hmore
  have hsettles := hbody.settles.unreleased.append input.settles_close
  have hcovers (q : Pipe) (hq : built q) :
      Covers (unreleased (body.events ++ body.owed) ++ input.close.2) q := by
    refine Covers.append_right (fun id => ?_) _
    rw [reports_unreleased]
    exact hbody.covers q hq id
  obtain ⟨result, before⟩ := body
  -- either way the events and what is still owed are those of the body, and of closing the input
  cases result with
  | error e =>
    have hnone : shared'.openReaders = 0 := by
      have howed : releases (Compiled.mk (.error e) before).owed = 0 := rfl
      omega
    have hdone : unreleased (before ++ []) ++ input.close.2 ~ events ++ [] := by
      rw [SharedRows.inputDue, if_pos hnone] at hmore
      rw [List.append_nil]
      exact hmore.symm
    exact ⟨⟨Compiled.tidy_error e events, hsettles.perm hdone (.refl _)⟩,
      fun q hq => (hcovers q hq).perm hdone⟩
  | ok q =>
    have hq : q.Tidy := hbody.tidy q rfl
    have howed : releases (Compiled.mk (.ok q) before).owed = q.readers := (Pipe.Kept.close hq).2.2
    have htidy : (Pipe.share shared' input' q).Tidy := ⟨⟨by omega, hshut⟩, hi', hq⟩
    have hdone : unreleased (before ++ q.close.2) ++ input.close.2 ~
        events ++ (Pipe.share shared' input' q).close.2 := Pipe.Kept.share_owes htidy hmore
    refine ⟨⟨fun p hp => ?_, hsettles.perm hdone (.refl _)⟩, fun p hp => (hcovers p hp).perm hdone⟩
    cases hp
    exact htidy

theorem unite_builds (limit : Nat) {left right : Seed → Compiled} {seed : Seed} (h : seed.Tidy)
    {inLeft inRight : Seed → Pipe → Prop}
    (hl : ∀ seed : Seed, seed.Tidy → (left seed).Builds seed.close (inLeft seed))
    (hr : ∀ seed : Seed, seed.Tidy → (right seed).Builds seed.close (inRight seed)) :
    (unite limit left right seed).Builds seed.close fun q => inLeft seed.branch q ∨
      ∃ p, (left seed.branch).result = .ok p ∧ inRight seed.branch q := by
  cases seed with
  | identity =>
    refine (hl .identity trivial).bind fun l hl' => ?_
    exact (hr .identity trivial).joined (encloses_branch hl')
  | input p =>
    let reader : Seed := .input (.replay .created 0)
    have hfirst : (left reader).Builds [.released] (inLeft reader) := hl reader trivial
    have hsecond : (right reader).Builds [.released] (inRight reader) := hr reader trivial
    have hreader : Settles [.released] [.released] := (Pipe.replay .created 0).settles_close
    have hsettles := hfirst.settles.append hreader
    have hcovers (q : Pipe) (hq : inLeft reader q) :=
      (hfirst.covers q hq).append_right [.released]
    show (shareBetween p limit left right).Builds p.close.2 fun q => inLeft reader q ∨
      ∃ p, (left reader).result = .ok p ∧ inRight reader q
    unfold shareBetween
    dsimp only
    cases hresult : (left reader).result with
    | error e =>
      rw [Compiled.owed, hresult, List.append_nil] at hsettles hcovers
      rw [← List.append_nil ((left reader).events ++ [Event.released])] at hsettles hcovers
      refine share_builds h limit ⟨.error e, (left reader).events ++ reader.close⟩ ?_ rfl
      refine ⟨⟨Compiled.tidy_error e _, hsettles⟩, fun q hq => ?_⟩
      rcases hq with hq | ⟨p, hp, -⟩
      · exact hcovers q hq
      · cases hp
    | ok l =>
      rw [Compiled.owed, hresult, List.append_assoc] at hsettles hcovers
      refine share_builds h limit ((((right reader).map fun r =>
        .concatAll [l, r]).orClose l).after (left reader).events) ?_ rfl
      have hboth := (hsecond.joined (encloses_branch (hfirst.tidy l hresult))).perm
        List.perm_append_comm
      refine (Compiled.Builds.after hsettles hcovers hboth).weaken fun q hq => ?_
      exact hq.imp_right fun ⟨p, hp, hq⟩ => hq

/-! ## Operators -/

/-- While the operator is compiled over the seed, a realization returns the pipeline. -/
def Op.Realizes : Op → Context → Seed → Pipe → Prop
  | .bgp _, _, _, _ | .quadPattern .., _, _, _ | .datasetNames _, _, _, _ | .table _, _, _, _
  | .graph (.var _) _, _, _, _ => False
  | .extension ext, ctx, seed, q => ∃ r, ctx.extensions.find? ext.name = some r ∧
    (r ext ctx.activeGraph seed.toPipe).result = .ok q
  | .join l r, ctx, seed, q => l.Realizes ctx seed q ∨
    ∃ p, (compile l ctx seed).result = .ok p ∧ r.Realizes ctx (.input p) q
  | .leftJoin l r _, ctx, _, q => l.Realizes ctx .identity q ∨
    ∃ p, (compile l ctx .identity).result = .ok p ∧ r.Realizes ctx .identity q
  | .union l r, ctx, seed, q => l.Realizes ctx seed.branch q ∨
    ∃ p, (compile l ctx seed.branch).result = .ok p ∧ r.Realizes ctx seed.branch q
  | .filter e sub, ctx, seed, q =>
    sub.Realizes ctx (if coveredBy e.mentions sub.mentions then seed else .identity) q
  | .graph (.term name) sub, ctx, seed, q => sub.Realizes (ctx.inGraph (.named name)) seed q
  | .order _ sub, ctx, _, q | .project _ sub, ctx, _, q | .distinct sub, ctx, _, q
  | .slice _ _ sub, ctx, _, q => sub.Realizes ctx .identity q

/-- No realization is asked for a plain pattern. -/
theorem Op.not_realizes_of_patterns {op : Op} {g : ActiveGraph} (h : (op.patterns? g).isSome)
    {ctx : Context} {seed : Seed} {q : Pipe} : ¬ op.Realizes ctx seed q := by
  cases op with
  | bgp | quadPattern => exact id
  | _ => cases h

section Operators

variable {ctx : Context} (hctx : ctx.extensions.Careful) {seed : Seed}

include hctx in
theorem realize_builds (ext : Extension) (h : seed.Tidy) :
    (ctx.realize ext seed).Builds seed.close ((Op.extension ext).Realizes ctx seed) := by
  obtain ⟨htidy, hclose⟩ := Seed.toPipe_tidy h
  unfold Context.realize
  rw [← hclose]
  cases hfind : ctx.extensions.find? ext.name with
  | none =>
    refine ⟨?_, fun q hq => ?_⟩
    · exact .refuse _ seed.toPipe
    · obtain ⟨r, hr, -⟩ := hq
      rw [hfind] at hr
      cases hr
  | some r =>
    have hhands := hctx ext.name r hfind ext ctx.activeGraph seed.toPipe htidy
    refine hhands.builds.weaken fun q hq => ?_
    obtain ⟨r', hr, hq⟩ := hq
    rw [hfind] at hr
    cases hr
    exact hq

theorem compileFilter_builds {e : Expr} {sub : Op} {build : Seed → Compiled} (h : seed.Tidy)
    {built : Pipe → Prop} (hbuild : (build seed).Builds seed.close built)
    (hplain : (sub.patterns? ctx.activeGraph).isSome → ∀ q, ¬ built q) :
    (compileFilter e sub ctx build seed).Builds seed.close built := by
  unfold compileFilter
  split
  · next hpatterns _ =>
    exact (compilePatterns_builds _ _ _ h).weaken fun q =>
      hplain (Option.isSome_of_eq_some hpatterns) q
  · exact hbuild.map (encloses_input (fun _ => rfl) fun _ => rfl)

end Operators

/-- **Compiling takes over the seed.** What closing the seed sets off, and every pipeline that a
realization has returned on the way, has happened or is owed for the compiled pipeline. -/
theorem compile_builds (op : Op) (ctx : Context) (hctx : ctx.extensions.Careful) (seed : Seed)
    (h : seed.Tidy) : (compile op ctx seed).Builds seed.close (op.Realizes ctx seed) := by
  induction op generalizing ctx seed with
  | bgp patterns => exact compilePatterns_builds _ _ patterns h
  | quadPattern name patterns => exact compilePatterns_builds _ _ patterns h
  | datasetNames name | table name =>
    obtain ⟨htidy, hclose⟩ := Seed.toPipe_tidy h
    rw [← hclose]
    exact .ok htidy (.refl _)
  | extension ext => exact realize_builds hctx ext h
  | join l r ihl ihr => exact (ihl ctx hctx seed h).bind fun p hp => ihr ctx hctx (.input p) hp
  | leftJoin l r condition ihl ihr =>
    rw [compile, Seed.through_unseedable (by rfl)]
    refine Seed.apart_builds h ((ihl ctx hctx .identity trivial).bind fun p hp => ?_)
    split
    · next hprobe =>
      have hok : (Compiled.ok (.optional .created r condition ctx.activeGraph p)).Builds p.close.2
          fun _ => False := .ok ⟨trivial, hp⟩ (.refl _)
      refine hok.weaken fun q hq => ?_
      cases r with
      | bgp | quadPattern => exact hq
      | _ => cases hprobe.2
    · have hstage : Encloses Pipe.Tidy (.joining .left condition p) p.close.2 :=
        fun q hq => ⟨⟨hp, hq⟩, List.perm_append_comm⟩
      exact (ihr ctx hctx .identity trivial).joined hstage
  | union l r ihl ihr => exact unite_builds ctx.maxRows h (ihl ctx hctx) (ihr ctx hctx)
  | filter e sub ih =>
    exact Seed.through_builds h _ fun seed h => compileFilter_builds h (ih ctx hctx seed h)
      fun hplain _ => Op.not_realizes_of_patterns hplain
  | graph name sub ih =>
    cases name with
    | term name => exact ih (ctx.inGraph (.named name)) hctx seed h
    | var v =>
      obtain ⟨htidy, hclose⟩ := Seed.toPipe_tidy h
      rw [← hclose]
      exact .ok ⟨trivial, htidy⟩ (.refl _)
  | order keys sub ih | project keys sub ih | distinct sub ih | slice _ _ sub ih =>
    rw [compile, Seed.through_unseedable (by rfl)]
    refine Seed.apart_builds h ((ih ctx hctx .identity trivial).map ?_)
    exact encloses_input (fun _ => rfl) fun _ => rfl

end TripleQuery
