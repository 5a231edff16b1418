import TripleQuery.Proofs.Answers.Sessions
import TripleQuery.Proofs.Pipe.Contents

/-!
# Missing realizations

An operator tree is refused if an extension in it has no registered realization, unless that stands
below a graph variable (`Op.refused_iff_unregistered`). What is below a graph variable is compiled
for each graph in the middle of the run, so nobody looks at it before: the query is accepted, and it
may fail for want of the realization later, or never (`Op.unregistered_below_variable`).
-/

namespace TripleQuery

/-! ## Where extensions are realized -/

namespace Op

/-- The extensions that are realized when the operator is compiled. -/
def eager : Op → List Extension
  | .extension ext => [ext]
  | .bgp _ | .quadPattern .. | .datasetNames _ | .table _ | .graph (.var _) _ => []
  | .join l r | .leftJoin l r _ | .union l r => l.eager ++ r.eager
  | .filter _ s | .graph (.term _) s | .order _ s | .project _ s | .distinct s | .slice _ _ s =>
    s.eager

/-- The extensions below a graph variable, which are realized in the middle of a run. -/
def deferred : Op → List Extension
  | .bgp _ | .quadPattern .. | .datasetNames _ | .table _ | .extension _ => []
  | .graph (.var _) s => s.extensions
  | .join l r | .leftJoin l r _ | .union l r => l.deferred ++ r.deferred
  | .filter _ s | .graph (.term _) s | .order _ s | .project _ s | .distinct s | .slice _ _ s =>
    s.deferred

theorem mem_extensions {op : Op} {ext : Extension} :
    ext ∈ op.extensions ↔ ext ∈ op.eager ∨ ext ∈ op.deferred := by
  induction op with
  | bgp | quadPattern | datasetNames | table => exact ⟨.inl, fun h => h.elim id id⟩
  | extension e => exact ⟨.inl, fun h => h.elim id fun h => absurd h List.not_mem_nil⟩
  | join l r ihl ihr | leftJoin l r _ ihl ihr | union l r ihl ihr =>
    simp only [extensions, eager, deferred, List.mem_append, ihl, ihr]
    exact or_or_or_comm
  | graph name sub ih =>
    cases name with
    | term name => exact ih
    | var v => exact ⟨.inr, fun h => h.elim (fun h => absurd h List.not_mem_nil) id⟩
  | filter _ _ ih | order _ _ ih | project _ _ ih | distinct _ ih | slice _ _ _ ih => exact ih

end Op

namespace Registry

/-- An extension among some has no registered realization. -/
def Misses (registry : Registry) (exts : List Extension) : Prop :=
  ∃ ext ∈ exts, registry.find? ext.name = none

/-- Every registered realization returns a pipeline. -/
def Succeeds (registry : Registry) : Prop :=
  ∀ name r, registry.find? name = some r → ∀ ext g seed, ∃ p, (r ext g seed).result = .ok p

theorem misses_append {registry : Registry} {exts exts' : List Extension} :
    registry.Misses (exts ++ exts') ↔ registry.Misses exts ∨ registry.Misses exts' := by
  simp only [Misses, List.mem_append, or_and_right, exists_or]

end Registry

/-! ## Refusing -/

/-- Compiling comes to a refusal, if something is missing, and else to a pipeline. -/
structure Compiled.Decided (c : Compiled) (missing : Prop) : Prop where
  refused : missing → ∃ e, c.result = .error e ∧ e.isUnsupported = true
  built : ¬ missing → ∃ p, c.result = .ok p

namespace Compiled.Decided

variable {c : Compiled} {missing missing' : Prop} {p : Pipe}

theorem of_ok (h : ¬ missing) : (Compiled.ok p).Decided missing :=
  ⟨fun hm => absurd hm h, fun _ => ⟨p, rfl⟩⟩

theorem congr (h : c.Decided missing) (hm : missing ↔ missing') : c.Decided missing' :=
  ⟨fun hm' => h.refused (hm.2 hm'), fun hm' => h.built fun hmissing => hm' (hm.1 hmissing)⟩

theorem bind {next : Pipe → Compiled} (h : c.Decided missing)
    (hnext : ∀ p, (next p).Decided missing') : (c.bind next).Decided (missing ∨ missing') := by
  by_cases hm : missing
  · obtain ⟨e, he, hunsupported⟩ := h.refused hm
    have hbind : c.bind next = c := by
      unfold Compiled.bind
      rw [he]
    rw [hbind]
    exact ⟨fun _ => ⟨e, he, hunsupported⟩, fun hnot => absurd (.inl hm) hnot⟩
  · obtain ⟨p, hp⟩ := h.built hm
    have hbind : (c.bind next).result = (next p).result := by
      unfold Compiled.bind
      rw [hp]
      rfl
    have hrest := hnext p
    refine ⟨fun hor => ?_, fun hnot => ?_⟩
    · rw [hbind]
      exact hrest.refused (hor.resolve_left hm)
    · rw [hbind]
      exact hrest.built fun hm' => hnot (.inr hm')

theorem map (h : c.Decided missing) (f : Pipe → Pipe) : (c.map f).Decided missing := by
  obtain ⟨result, events⟩ := c
  refine ⟨fun hm => ?_, fun hm => ?_⟩
  · obtain ⟨e, rfl, hunsupported⟩ := h.refused hm
    exact ⟨e, rfl, hunsupported⟩
  · obtain ⟨p, rfl⟩ := h.built hm
    exact ⟨f p, rfl⟩

theorem orClose (h : c.Decided missing) (waiting : Pipe) : (c.orClose waiting).Decided missing := by
  obtain ⟨result, events⟩ := c
  refine ⟨fun hm => ?_, fun hm => ?_⟩
  · obtain ⟨e, rfl, hunsupported⟩ := h.refused hm
    exact ⟨e, rfl, hunsupported⟩
  · obtain ⟨p, rfl⟩ := h.built hm
    exact ⟨p, rfl⟩

end Compiled.Decided

theorem Seed.through_decided {missing : Prop} {build : Seed → Compiled} (seed : Seed)
    (seedable : Bool) (h : ∀ seed, (build seed).Decided missing) :
    (seed.through seedable build).Decided missing := by
  cases seedable with
  | true => exact h seed
  | false =>
    cases seed with
    | identity => exact h .identity
    | input p => exact ((h .identity).map _).orClose p

theorem unite_decided {missing missing' : Prop} {left right : Seed → Compiled} (limit : Nat)
    (seed : Seed) (hl : ∀ seed, (left seed).Decided missing)
    (hr : ∀ seed, (right seed).Decided missing') :
    (unite limit left right seed).Decided (missing ∨ missing') := by
  cases seed with
  | identity => exact (hl .identity).bind fun l => ((hr .identity).map _).orClose l
  | input p =>
    let reader : Seed := .input (.replay .created 0)
    show (shareBetween p limit left right).Decided (missing ∨ missing')
    unfold shareBetween
    dsimp only
    by_cases hm : missing
    · obtain ⟨e, he, hunsupported⟩ := (hl reader).refused hm
      rw [he]
      exact ⟨fun _ => ⟨e, rfl, hunsupported⟩, fun hnot => absurd (.inl hm) hnot⟩
    · obtain ⟨l, hfirst⟩ := (hl reader).built hm
      rw [hfirst]
      have hbody := ((hr reader).map fun r => .concatAll [l, r]).orClose l
      refine ⟨fun hor => ?_, fun hnot => ?_⟩
      · obtain ⟨e, he, hunsupported⟩ := hbody.refused (hor.resolve_left hm)
        refine ⟨e, ?_, hunsupported⟩
        show Except.map _ (Compiled.orClose l _).result = _
        rw [he]
        rfl
      · obtain ⟨q, hq⟩ := hbody.built fun hm' => hnot (.inr hm')
        show ∃ p, Except.map _ (Compiled.orClose l _).result = .ok p
        rw [hq]
        exact ⟨_, rfl⟩

theorem compileFilter_decided {missing : Prop} {e : Expr} {sub : Op} {ctx : Context}
    {build : Seed → Compiled} {seed : Seed} (h : (build seed).Decided missing)
    (hplain : (sub.patterns? ctx.activeGraph).isSome → ¬ missing) :
    (compileFilter e sub ctx build seed).Decided missing := by
  unfold compileFilter
  split
  · next hpatterns _ => exact .of_ok (hplain (Option.isSome_of_eq_some hpatterns))
  · exact h.map _

/-- **Compiling decides.** If realizations succeed, an operator is refused exactly if an extension
that is realized at once has no realization. -/
theorem compile_decided {ctx : Context} (hctx : ctx.extensions.Succeeds) (op : Op)
    (g : ActiveGraph) (seed : Seed) :
    (compile op (ctx.inGraph g) seed).Decided (ctx.extensions.Misses op.eager) := by
  have hnone : ¬ ctx.extensions.Misses [] := fun ⟨_, h, _⟩ => nomatch h
  induction op generalizing g seed with
  | bgp | quadPattern | datasetNames | table => exact .of_ok hnone
  | extension ext =>
    have hone : ctx.extensions.Misses [ext] ↔ ctx.extensions.find? ext.name = none :=
      ⟨fun ⟨e, he, h⟩ => List.mem_singleton.1 he ▸ h, fun h => ⟨ext, List.mem_cons_self, h⟩⟩
    refine Compiled.Decided.congr ?_ hone.symm
    show ((ctx.inGraph g).realize ext seed).Decided _
    unfold Context.realize
    cases hfind : (ctx.inGraph g).extensions.find? ext.name with
    | none => exact ⟨fun _ => ⟨_, rfl, rfl⟩, fun h => absurd hfind h⟩
    | some r =>
      obtain ⟨p, hp⟩ := hctx ext.name r hfind ext (ctx.inGraph g).activeGraph seed.toPipe
      exact ⟨fun h => (nomatch hfind.symm.trans h), fun _ => ⟨p, hp⟩⟩
  | join l r ihl ihr =>
    exact ((ihl g seed).bind fun p => ihr g (.input p)).congr Registry.misses_append.symm
  | leftJoin l r condition ihl ihr =>
    refine seed.through_decided _ fun seed => Compiled.Decided.congr
      ((ihl g seed).bind fun p => ?_) Registry.misses_append.symm
    split
    · next hprobe =>
      refine .of_ok ?_
      cases r with
      | bgp | quadPattern => exact hnone
      | _ => cases hprobe.2
    · exact ((ihr g .identity).map _).orClose p
  | union l r ihl ihr =>
    exact (unite_decided ctx.maxRows seed (ihl g) (ihr g)).congr Registry.misses_append.symm
  | filter e sub ih =>
    refine seed.through_decided _ fun seed => compileFilter_decided (ih g seed) fun hplain => ?_
    cases sub with
    | bgp | quadPattern => exact hnone
    | _ => cases hplain
  | graph name sub ih =>
    cases name with
    | term name => exact ih (.named name) seed
    | var v => exact .of_ok hnone
  | order keys sub ih | project keys sub ih | distinct sub ih | slice _ _ sub ih =>
    exact seed.through_decided _ fun seed => (ih g seed).map _

/-! ## Answers within an allowance -/

namespace Allowance

variable (a : Allowance)

/-- Outcomes other than a failure that is not allowed. -/
def outcome {α : Type} : Outcome α → Prop
  | .failed e => a.failure e
  | .value _ | .stalled => True

/-- Responses other than a failure that is not allowed. -/
def response : Response → Prop
  | .row outcome => a.outcome outcome
  | .rows outcome => a.outcome outcome
  | .number outcome => a.outcome outcome
  | .nothing => True

end Allowance

section Answers

variable {a : Allowance} {ctx : Context} (hctx : a.Realized ctx)

include hctx in
theorem Pipe.next_stays_within (fuel : Nat) {p : Pipe} (hp : p.Within a) (state : RunState)
    (log : Array Event) :
    a.outcome (p.next ctx fuel state log).outcome ∧
      (p.next ctx fuel state log).subject.Within a := by
  induction fuel generalizing p state log with
  | zero => exact ⟨trivial, hp⟩
  | succ fuel ih =>
    have hs := step_stays_within hctx hp none nofun state
    have hsignal := hs.signal
    rw [next]
    cases h : (p.step ctx none state).signal with
    | skip => exact ih hs.pipe _ _
    | yield _ | done | await => exact ⟨trivial, hs.pipe⟩
    | fail e =>
      rw [h] at hsignal
      exact ⟨hsignal, hs.pipe⟩

namespace Query

variable {q : Query}

theorem close_within (h : q.root.Within a) : q.close.1.root.Within a := by
  unfold close
  split
  · exact h
  · exact (Pipe.Within.close h).1

include hctx

theorem next_within (h : q.root.Within a) (fuel : Nat) (state : RunState) (log : Array Event) :
    a.outcome (q.next ctx fuel state log).outcome ∧
      (q.next ctx fuel state log).subject.root.Within a := by
  unfold next
  split
  · exact ⟨trivial, h⟩
  · split
    · exact ⟨a.cancelled, close_within h⟩
    · obtain ⟨houtcome, hroot⟩ := Pipe.next_stays_within hctx fuel h state log
      dsimp only
      cases ho : (q.root.next ctx fuel state log).outcome with
      | value row =>
        cases row with
        | some row => exact ⟨trivial, hroot⟩
        | none => exact ⟨trivial, close_within hroot⟩
      | failed e =>
        rw [ho] at houtcome
        exact ⟨houtcome, close_within hroot⟩
      | stalled => exact ⟨trivial, hroot⟩

theorem first_within (h : q.root.Within a) (fuel : Nat) (state : RunState) (log : Array Event) :
    a.outcome (q.first ctx fuel state log).outcome ∧
      (q.first ctx fuel state log).subject.root.Within a := by
  obtain ⟨houtcome, hroot⟩ := next_within hctx h fuel state log
  unfold first
  dsimp only
  split
  · exact ⟨trivial, close_within hroot⟩
  · exact ⟨houtcome, hroot⟩

theorem collect_go_within (h : q.root.Within a) (fuel rounds : Nat) (state : RunState)
    (log : Array Event) (rows : Array Binding) :
    a.outcome (collect.go ctx fuel rounds q state log rows).outcome ∧
      (collect.go ctx fuel rounds q state log rows).subject.root.Within a := by
  induction rounds generalizing q state log rows with
  | zero => exact ⟨trivial, h⟩
  | succ rounds ih =>
    obtain ⟨houtcome, hroot⟩ := next_within hctx h fuel state log
    rw [collect.go]
    cases ho : (q.next ctx fuel state log).outcome with
    | value row =>
      cases row with
      | some row => exact ih hroot _ _ _
      | none => exact ⟨trivial, hroot⟩
    | failed e =>
      rw [ho] at houtcome
      exact ⟨houtcome, hroot⟩
    | stalled => exact ⟨trivial, hroot⟩

theorem count_within (h : q.root.Within a) (fuel : Nat) (state : RunState) (log : Array Event) :
    a.outcome (q.count ctx fuel state log).outcome ∧
      (q.count ctx fuel state log).subject.root.Within a := by
  obtain ⟨houtcome, hroot⟩ := collect_go_within hctx h fuel fuel state log #[]
  refine ⟨?_, hroot⟩
  unfold count collect
  dsimp only
  cases ho : (collect.go ctx fuel fuel q state log #[]).outcome with
  | value rows => trivial
  | failed e =>
    rw [ho] at houtcome
    exact houtcome
  | stalled => trivial

end Query

include hctx in
/-- A query within an allowance gives responses within it. -/
theorem Session.run_within {s : Session} (h : s.query.root.Within a) (calls : List Call) :
    ∀ r ∈ (s.run ctx calls).1, a.response r := by
  have hcall {s : Session} (h : s.query.root.Within a) (c : Call) :
      a.response (s.call ctx c).1 ∧ (s.call ctx c).2.query.root.Within a := by
    cases c with
    | next fuel => exact Query.next_within hctx h fuel s.state s.log
    | first fuel => exact Query.first_within hctx h fuel s.state s.log
    | collect fuel => exact Query.collect_go_within hctx h fuel fuel s.state s.log #[]
    | count fuel => exact Query.count_within hctx h fuel s.state s.log
    | close => exact ⟨trivial, Query.close_within h⟩
    | cancel => exact ⟨trivial, h⟩
  induction calls generalizing s with
  | nil => exact List.forall_mem_nil _
  | cons c calls ih =>
    obtain ⟨hresponse, hquery⟩ := hcall h c
    exact List.forall_mem_cons.2 ⟨hresponse, ih hquery⟩

end Answers

/-! ## Registered extensions -/

namespace Registry

/-- What may occur in the pipelines of a query whose extensions are all registered: no failure for
want of a realization. -/
def supported (registry : Registry) : Allowance where
  extension ext := registry.find? ext.name ≠ none
  failure e := e.isUnsupported = false
  tracker _ := True
  dataset _ := rfl
  cancelled := rfl
  tooLarge _ _ := rfl

/-- No registered realization brings in what is not registered, or fails for want of something. -/
def Supports (registry : Registry) : Prop :=
  ∀ name r, registry.find? name = some r → ∀ ext g seed, seed.Within registry.supported →
    (r ext g seed).Within registry.supported

theorem Supports.realized {ctx : Context} (h : ctx.extensions.Supports) :
    ctx.extensions.supported.Realized ctx := by
  intro ext hext g seed hseed
  unfold Context.realize
  cases hfind : (ctx.inGraph g).extensions.find? ext.name with
  | none => exact absurd hfind hext
  | some r => exact h ext.name r hfind ext _ seed.toPipe hseed

end Registry

/-- The query of an operator, as compiling decides. -/
theorem Query.ofOp_decided {ctx : Context} (hctx : ctx.extensions.Succeeds) (op : Op) :
    (ctx.extensions.Misses op.eager ∧
        ∃ e, (Query.ofOp op ctx).1 = .error e ∧ e.isUnsupported = true) ∨
      (¬ ctx.extensions.Misses op.eager ∧
        ∃ p, (Query.ofOp op ctx).1 = .ok ⟨p, false⟩ ∧
          (compile op ctx .identity).result = .ok p) := by
  have hdecided := compile_decided hctx op ctx.activeGraph .identity
  have hquery : (Query.ofOp op ctx).1 =
      (compile op (ctx.inGraph ctx.activeGraph) .identity).result.map (⟨·, false⟩) := rfl
  rw [hquery]
  by_cases hmiss : ctx.extensions.Misses op.eager
  · obtain ⟨e, he, hunsupported⟩ := hdecided.refused hmiss
    rw [he]
    exact .inl ⟨hmiss, e, rfl, hunsupported⟩
  · obtain ⟨p, hp⟩ := hdecided.built hmiss
    rw [hp]
    exact .inr ⟨hmiss, p, rfl, hp⟩

/-- **Which queries are refused.** Let every registered realization succeed. Then the query of an
operator tree is refused exactly if an extension that is not below a graph variable has no
registered realization. So if all below graph variables are registered, it is refused exactly if any
extension at all is not; and once it is accepted, no call fails for want of a realization, unless a
realization brings in such a failure by itself. -/
theorem Op.refused_iff_unregistered (op : Op) {ctx : Context} (hctx : ctx.extensions.Succeeds) :
    ((∃ e, (Query.ofOp op ctx).1 = .error e ∧ e.isUnsupported = true) ↔
        ctx.extensions.Misses op.eager) ∧
      (¬ ctx.extensions.Misses op.eager → ∃ q, (Query.ofOp op ctx).1 = .ok q) ∧
      (¬ ctx.extensions.Misses op.deferred →
        ((∃ e, (Query.ofOp op ctx).1 = .error e ∧ e.isUnsupported = true) ↔
            ctx.extensions.Misses op.extensions) ∧
          (ctx.extensions.Supports → ∀ q, (Query.ofOp op ctx).1 = .ok q →
            ∀ state log calls, ∀ r ∈ ((Session.mk q state log).run ctx calls).1,
              ctx.extensions.supported.response r)) := by
  have hrefused : (∃ e, (Query.ofOp op ctx).1 = .error e ∧ e.isUnsupported = true) ↔
      ctx.extensions.Misses op.eager := by
    rcases Query.ofOp_decided hctx op with ⟨hmiss, he⟩ | ⟨hnot, p, hp, -⟩
    · exact ⟨fun _ => hmiss, fun _ => he⟩
    · refine ⟨fun ⟨e, he, _⟩ => ?_, fun hmiss => absurd hmiss hnot⟩
      rw [hp] at he
      cases he
  refine ⟨hrefused, fun hnot => ?_, fun hdeferred => ⟨hrefused.trans ?_, fun hsupports q hq => ?_⟩⟩
  · rcases Query.ofOp_decided hctx op with ⟨hmiss, -⟩ | ⟨-, p, hp, -⟩
    · exact absurd hmiss hnot
    · exact ⟨_, hp⟩
  · have hall : ctx.extensions.Misses op.extensions ↔
        ctx.extensions.Misses op.eager ∨ ctx.extensions.Misses op.deferred := by
      simp only [Registry.Misses, mem_extensions, or_and_right, exists_or]
    rw [hall, or_iff_left hdeferred]
  · intro state log calls
    rcases Query.ofOp_decided hctx op with ⟨-, e, he, -⟩ | ⟨hnot, p, hp, hcompiled⟩
    · rw [hq] at he
      cases he
    · obtain rfl : q = ⟨p, false⟩ := Except.ok.inj (hq.symm.trans hp)
      have hop : ctx.extensions.supported.operator op := by
        intro ext hext hnone
        rcases mem_extensions.1 hext with heager | hbelow
        · exact hnot ⟨ext, heager, hnone⟩
        · exact hdeferred ⟨ext, hbelow, hnone⟩
      have hwithin := compile_within hop hsupports.realized ctx.activeGraph .identity trivial
      exact Session.run_within hsupports.realized (hwithin.ok p hcompiled) calls

namespace Registration

/-- A realization that returns its seed, tracked. -/
def registry : Registry := ⟨[("kept", Realizer.track)]⟩

/-- A context over one quad in a named graph. -/
def context (registry : Registry) : Context where
  dataset := (QuadStore.ofList [⟨.iri "a", .iri "p", .iri "b", some (.iri "g")⟩]).dataset
  extensions := registry
  config := .standard
  activeGraph := .default

/-- An extension in every named graph. -/
def inEveryGraph (name : String) : Op := .graph (.var ⟨"g"⟩) (.extension ⟨name, .unit, 0⟩)

theorem track_of_find? {name : String} {r : Realizer} (h : registry.find? name = some r) :
    r = Realizer.track := by
  unfold Registry.find? registry at h
  rw [List.lookup_cons] at h
  split at h
  · exact (Option.some.inj h).symm
  · cases h

theorem registry_succeeds : registry.Succeeds := by
  intro name r hr ext g seed
  obtain rfl := track_of_find? hr
  exact ⟨_, rfl⟩

theorem registry_supports : registry.Supports := by
  intro name r hr ext g seed hseed
  obtain rfl := track_of_find? hr
  refine ⟨fun p hp => ?_, fun e he => (nomatch he), List.forall_mem_singleton.2 trivial⟩
  cases hp
  exact ⟨trivial, hseed⟩

end Registration

open Registration in
theorem Op.refused_iff_unregistered_everywhere :
    (∃ e, (Query.ofOp (.join (inEveryGraph "kept") (.extension ⟨"missing", .unit, 0⟩))
        (context registry)).1 = .error e ∧ e.isUnsupported = true) ∧
      ∃ q, (Query.ofOp (inEveryGraph "kept") (context registry)).1 = .ok q ∧
        ∀ state log calls, ∀ r ∈ ((Session.mk q state log).run (context registry) calls).1,
          registry.supported.response r := by
  have hctx : (context registry).extensions.Succeeds := registry_succeeds
  obtain ⟨hrefused, -, -⟩ := refused_iff_unregistered
    (.join (inEveryGraph "kept") (.extension ⟨"missing", .unit, 0⟩)) hctx
  obtain ⟨-, hbuilt, hlater⟩ := refused_iff_unregistered (inEveryGraph "kept") hctx
  have heager : ¬ registry.Misses (inEveryGraph "kept").eager := fun ⟨_, h, _⟩ => nomatch h
  have hdeferred : ¬ registry.Misses (inEveryGraph "kept").deferred := by
    rintro ⟨ext, hext, hnone⟩
    obtain rfl := List.mem_singleton.1 hext
    cases hnone
  obtain ⟨q, hq⟩ := hbuilt heager
  refine ⟨hrefused.2 ⟨⟨"missing", .unit, 0⟩, List.mem_cons_self, rfl⟩, q, hq, ?_⟩
  exact (hlater hdeferred).2 registry_supports q hq

open Registration in
/-- Below a graph variable a missing realization goes unnoticed until the run comes there. -/
theorem Op.unregistered_below_variable :
    (context .empty).extensions.Succeeds ∧
      (context .empty).extensions.Misses (inEveryGraph "missing").extensions ∧
      ∃ q, (Query.ofOp (inEveryGraph "missing") (context .empty)).1 = .ok q ∧
        ((Session.mk q .initial #[]).run (context .empty) [.next 9]).1 =
          [.row (.failed (.unsupported "Extension(missing)" "no realization registered"))] := by
  refine ⟨fun _ _ h => (nomatch h), ⟨⟨"missing", .unit, 0⟩, List.mem_cons_self, rfl⟩, ?_⟩
  exact ⟨_, rfl, rfl⟩

end TripleQuery
