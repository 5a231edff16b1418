import TripleQuery.Proofs.Flow.Source
import TripleQuery.Proofs.Pipe.Compile
import TripleQuery.Proofs.Pipe.Lockstep
import TripleQuery.Proofs.Pipe.Phases

/-!
# Surplus quads

A dataset may list more quads than a question asks for, as long as those that are wanted are all
there and in order (`Dataset.Overlists`). A surplus quad binds nothing (`bindQuad_of_surplus`), so a
pipeline that has one to read is as good as the pipeline without it. `Pipe.sift` takes all surplus
out of a pipeline and `Pipe.surplus` counts it. Closing goes on as if there were none, and a
pipeline that has just been compiled has none.
-/

namespace TripleQuery

/-! ## Datasets that list too much -/

/-- Whether a listed quad answers the question: its terms are those asked for, and it has a graph
name if any named graph will do. -/
def ScanRequest.wants (r : ScanRequest) (q : Quad) : Bool :=
  r.fits q && match r.target with
    | .anyNamed => q.graph.isSome
    | .default | .named _ => true

/-- The dataset has the graph names of the store. However often it is asked, what it lists is what
the store selects, in order, with surplus in between. -/
structure Dataset.Overlists (d : Dataset) (store : QuadStore) : Prop where
  scan : ∀ k r, ∃ quads : List Quad, d.scan k r = .ok (quads.map .quad) ∧
    quads.filter r.wants = store.select r
  graphNames : ∀ k, d.graphNames k = .ok store.graphNames

/-- A quad that a pattern binds is wanted. -/
theorem wants_of_bindQuad {pattern : TriplePattern} {slot : GraphSlot} {row m : Binding} {q : Quad}
    (h : bindQuad pattern slot row q = some m) :
    (ScanRequest.ofPattern pattern slot row).wants q = true := by
  obtain ⟨m', hmatch, hslot⟩ := Option.bind_eq_some_iff.1 h
  unfold ScanRequest.wants
  rw [(fits_of_matchAll hmatch).1, Bool.true_and]
  cases slot with
  | default | named => rfl
  | var v =>
    show (match (row.get? v).elim GraphTarget.anyNamed .named with
      | .anyNamed => q.graph.isSome
      | .default | .named _ => true) = true
    cases row.get? v with
    | some name => rfl
    | none =>
      cases hgraph : q.graph with
      | some name => rfl
      | none =>
        rw [hgraph] at hslot
        cases hslot

/-- A surplus quad binds nothing. -/
theorem bindQuad_of_surplus {pattern : TriplePattern} {slot : GraphSlot} {row : Binding} {q : Quad}
    (h : (ScanRequest.ofPattern pattern slot row).wants q = false) :
    bindQuad pattern slot row q = none := by
  cases hbind : bindQuad pattern slot row q with
  | none => rfl
  | some m =>
    rw [wants_of_bindQuad hbind] at h
    cases h

/-! ## Sifting -/

/-- Whether an item is worth reading for a question. All are but surplus quads. -/
def CursorItem.worth (r : ScanRequest) : CursorItem → Bool
  | .quad q => r.wants q
  | .fault _ | .cancel => true

namespace ScanState

/-- What a scan is at, without surplus. -/
def sift (pattern : TriplePattern) (slot : GraphSlot) : ScanState → ScanState
  | .reading row items =>
    .reading row (items.filter (CursorItem.worth (.ofPattern pattern slot row)))
  | at' => at'

/-- The number of surplus quads that a scan is yet to read. -/
def surplus (pattern : TriplePattern) (slot : GraphSlot) : ScanState → Nat
  | .reading row items => items.countP fun i => !i.worth (.ofPattern pattern slot row)
  | _ => 0

section Reading

variable {pattern : TriplePattern} {slot : GraphSlot} {row : Binding} {q : Quad}

theorem sift_wanted (h : (ScanRequest.ofPattern pattern slot row).wants q = true)
    (items : List CursorItem) : sift pattern slot (.reading row (.quad q :: items)) =
      .reading row (.quad q :: items.filter (CursorItem.worth (.ofPattern pattern slot row))) :=
  congrArg (ScanState.reading row) (List.filter_cons_of_pos h)

theorem sift_of_surplus (h : (ScanRequest.ofPattern pattern slot row).wants q = false)
    (items : List CursorItem) : sift pattern slot (.reading row (.quad q :: items)) =
      sift pattern slot (.reading row items) :=
  congrArg (ScanState.reading row) (List.filter_cons_of_neg (ne_true_of_eq_false h))

theorem surplus_cons (h : (ScanRequest.ofPattern pattern slot row).wants q = false)
    (items : List CursorItem) : surplus pattern slot (.reading row (.quad q :: items)) =
      surplus pattern slot (.reading row items) + 1 :=
  List.countP_cons_of_pos (congrArg not h)

end Reading

/-- What is left to read are quads. -/
def Calm : ScanState → Prop
  | .reading _ items => ∃ quads : List Quad, items = quads.map .quad
  | _ => True

end ScanState

namespace Pipe

/-- The pipeline without surplus. -/
def sift : Pipe → Pipe
  | bindings phase rows => bindings phase rows
  | script phase items => script phase items
  | replay phase position => replay phase position
  | concatEnd phase => concatEnd phase
  | tracked id calling input => tracked id calling input.sift
  | share shared input body => share shared input.sift body.sift
  | scan phase pattern slot at' input => scan phase pattern slot (at'.sift pattern slot) input.sift
  | filter phase e input => filter phase e input.sift
  | join phase kind condition at' left right => join phase kind condition at' left.sift right.sift
  | optional phase sub condition g input => optional phase sub condition g input.sift
  | probing sub condition g row matched probe input =>
    probing sub condition g row matched probe.sift input.sift
  | graphs phase var sub known at' input => graphs phase var sub known at' input.sift
  | within var sub known row candidates inner input =>
    within var sub known row candidates inner.sift input.sift
  | names phase name known pending input => names phase name known pending input.sift
  | table phase rows at' input => table phase rows at' input.sift
  | order phase keys at' input => order phase keys at' input.sift
  | project phase vars input => project phase vars input.sift
  | distinct phase seen limit input => distinct phase seen limit input.sift
  | slice phase skip remaining input => slice phase skip remaining input.sift
  | concat phase dry first rest => concat phase dry first.sift rest.sift

/-- The number of surplus quads that the pipeline is yet to read. -/
def surplus : Pipe → Nat
  | bindings .. | script .. | replay .. | concatEnd _ => 0
  | scan _ pattern slot at' input => at'.surplus pattern slot + input.surplus
  | tracked _ _ input | filter _ _ input | optional _ _ _ _ input | graphs _ _ _ _ _ input
  | names _ _ _ _ input | table _ _ _ input | order _ _ _ input | project _ _ input
  | distinct _ _ _ input | slice _ _ _ input => input.surplus
  | share _ p q | join _ _ _ _ p q | concat _ _ p q | probing _ _ _ _ _ p q
  | within _ _ _ _ _ p q => p.surplus + q.surplus

/-- The next step reads no quad: the scan that it comes to, if any, has none at hand. -/
def Ready : Pipe → Prop
  | bindings .. | script .. | replay .. | concatEnd _ => True
  | scan _ _ _ (.reading ..) _ => False
  | scan _ _ _ .idle input | scan _ _ _ .asking input | tracked _ _ input | filter _ _ input
  | optional _ _ _ _ input | graphs _ _ _ _ _ input | names _ _ _ _ input | table _ _ _ input
  | order _ _ _ input | project _ _ input | distinct _ _ _ input | slice _ _ _ input
  | probing _ _ _ _ _ input _ | within _ _ _ _ _ input _ | join _ _ _ (.gathering _) _ input
  | join _ _ _ (.idle _) input _ | join _ _ _ (.trying ..) input _ | concat _ false input _
  | concat _ true _ input => input.Ready
  | share _ input body => body.Ready ∧ input.Ready

/-- The pipeline is one of those that a plain operator comes to over a dataset that always answers.
A scope has a failure to report only while its body waits for it. -/
def Calm : Pipe → Prop
  | script .. | tracked .. => False
  | bindings .. | replay .. | concatEnd _ => True
  | share shared input body =>
    (shared.fault = none ∨ body.phase.isDone = true ∨ body.Ready) ∧ input.Calm ∧ body.Calm
  | scan _ _ _ at' input => at'.Calm ∧ input.Calm
  | optional _ sub _ _ input | graphs _ _ sub _ _ input => sub.Plain ∧ input.Calm
  | probing sub _ _ _ _ p q | within _ sub _ _ _ p q => sub.Plain ∧ p.Calm ∧ q.Calm
  | filter _ _ input | names _ _ _ _ input | table _ _ _ input | order _ _ _ input
  | project _ _ input | distinct _ _ _ input | slice _ _ _ input => input.Calm
  | join _ _ _ _ p q | concat _ _ p q => p.Calm ∧ q.Calm

theorem sift_isSpent (p : Pipe) : p.sift.isSpent = p.isSpent := by cases p <;> rfl

end Pipe

/-! ## Closing -/

theorem settle_sift (shared : SharedRows) (input : Pipe) (close close' : Unit → Pipe × List Event)
    (h : close' () = ((close ()).1.sift, (close ()).2)) (events : List Event) :
    shared.settle input.sift close' events =
      ((shared.settle input close events).1, (shared.settle input close events).2.1.sift,
        (shared.settle input close events).2.2) := by
  induction events generalizing shared input with
  | nil => rfl
  | cons e rest ih =>
    rw [SharedRows.settle, SharedRows.settle]
    split
    · split
      · rw [h]
        dsimp only
        rw [ih]
      · exact ih _ input
    · rw [ih]

/-- A pipeline without its surplus is closed like the whole one. -/
theorem Pipe.close_sift (p : Pipe) : p.sift.close = (p.close.1.sift, p.close.2) := by
  induction p with
  | bindings | script | replay | concatEnd => rfl
  | share shared input body ihi ihb =>
    rw [sift, close, close, ihb]
    dsimp only
    rw [settle_sift shared input (fun _ => input.close) _ ihi]
    rfl
  | tracked _ _ _ ih | scan _ _ _ _ _ ih | filter _ _ _ ih | optional _ _ _ _ _ ih
  | graphs _ _ _ _ _ _ ih | names _ _ _ _ _ ih | table _ _ _ _ ih | order _ _ _ _ ih
  | project _ _ _ ih | distinct _ _ _ _ ih | slice _ _ _ _ ih =>
    rw [sift, close, close, ih]
    rfl
  | join _ _ _ _ _ _ ihp ihq | concat _ _ _ _ ihp ihq | probing _ _ _ _ _ _ _ ihp ihq
  | within _ _ _ _ _ _ _ ihp ihq =>
    rw [sift, close, close, ihp, ihq]
    rfl

theorem settle_calm (shared : SharedRows) {input : Pipe} (hi : input.Calm)
    (close : Unit → Pipe × List Event) (hc : (close ()).1.Calm) (events : List Event) :
    (shared.settle input close events).1.fault = shared.fault ∧
      (shared.settle input close events).2.1.Calm := by
  induction events generalizing shared input with
  | nil => exact ⟨rfl, hi⟩
  | cons e rest ih =>
    rw [SharedRows.settle]
    split
    · split
      · exact ih _ hc
      · exact ih _ hi
    · exact ih shared hi

theorem Pipe.Calm.close {p : Pipe} (h : p.Calm) : p.close.1.Calm := by
  induction p with
  | script | tracked => cases h
  | bindings | replay | concatEnd => trivial
  | share shared input body ihi ihb =>
    have hdone : body.close.1.phase.isDone = true := by
      rw [close_phase]
      rfl
    obtain ⟨-, hi⟩ := settle_calm shared h.2.1 (fun _ => input.close) (ihi h.2.1) body.close.2
    exact ⟨.inr (.inl hdone), hi, ihb h.2.2⟩
  | scan _ _ _ _ _ ih => exact ⟨trivial, ih h.2⟩
  | optional _ _ _ _ _ ih | graphs _ _ _ _ _ _ ih => exact ⟨h.1, ih h.2⟩
  | probing _ _ _ _ _ _ _ _ ih | within _ _ _ _ _ _ _ _ ih => exact ⟨h.1, ih h.2.2⟩
  | filter _ _ _ ih | names _ _ _ _ _ ih | table _ _ _ _ ih | order _ _ _ _ ih | project _ _ _ ih
  | distinct _ _ _ _ ih | slice _ _ _ _ ih => exact ih h
  | join _ _ _ _ _ _ ihp ihq | concat _ _ _ _ ihp ihq => exact ⟨ihp h.1, ihq h.2⟩

/-! ## Compiling -/

/-- The pipeline has no surplus, and comes to nothing that a plain operator does not come to. -/
structure Pipe.Fresh (p : Pipe) : Prop where
  sift : p.sift = p
  calm : p.Calm

/-- The seed has no surplus. -/
def Seed.Fresh (seed : Seed) : Prop := seed.toPipe.Fresh

theorem Seed.identity_fresh : Seed.identity.Fresh := ⟨rfl, trivial⟩

theorem Seed.joined_fresh {seed : Seed} (h : seed.Fresh) {own : Pipe} (ho : own.Fresh) :
    (seed.joined own).Fresh := by
  cases seed with
  | identity => exact ho
  | input p =>
    have hp : p.Fresh := h
    exact ⟨congrArg₂ (Pipe.joining .inner none) hp.sift ho.sift, hp.calm, ho.calm⟩

theorem Seed.branched_fresh {seed : Seed} (h : seed.Fresh) (limit : Nat) {left right : Seed → Pipe}
    (hl : ∀ seed, seed.Fresh → (left seed).Fresh)
    (hr : ∀ seed, seed.Fresh → (right seed).Fresh) : (seed.branched limit left right).Fresh := by
  have hpair {l r : Pipe} (hl : l.Fresh) (hr : r.Fresh) : (Pipe.concatAll [l, r]).Fresh :=
    ⟨congrArg₂ (fun l r => Pipe.concatAll [l, r]) hl.sift hr.sift, hl.calm, hr.calm, trivial⟩
  cases seed with
  | identity => exact hpair (hl _ h) (hr _ h)
  | input p =>
    have hp : p.Fresh := h
    have hreader : Seed.Fresh (.input (.replay .created 0)) := ⟨rfl, trivial⟩
    have hbody := hpair (hl _ hreader) (hr _ hreader)
    exact ⟨congrArg₂ (Pipe.share (.forTwo limit)) hp.sift hbody.sift, .inl rfl, hp.calm,
      hbody.calm⟩

theorem scanChain_fresh (slot : GraphSlot) (patterns : List TriplePattern)
    {condition : Option Expr} {bound : List Variable} {p : Pipe} (hp : p.Fresh) :
    (scanChain slot condition bound patterns p).Fresh := by
  have hfilter {p : Pipe} (hp : p.Fresh) (e : Expr) : (Pipe.filter .created e p).Fresh :=
    ⟨congrArg (Pipe.filter .created e) hp.sift, hp.calm⟩
  induction patterns generalizing condition bound p with
  | nil =>
    cases condition with
    | none => exact hp
    | some e => exact hfilter hp e
  | cons pattern patterns ih =>
    have hscan : (Pipe.scan .created pattern slot .idle p).Fresh :=
      ⟨congrArg (Pipe.scan .created pattern slot .idle) hp.sift, trivial, hp.calm⟩
    cases condition with
    | none => exact ih hscan
    | some e =>
      rw [scanChain]
      split
      · exact ih (hfilter hscan e)
      · exact ih hscan

theorem Op.filtered_fresh (ctx : Context) (e : Expr) (g : ActiveGraph) (sub : Op) {seed : Seed}
    (h : seed.Fresh) {own : Pipe} (ho : own.Fresh) : (sub.filtered ctx e g seed own).Fresh := by
  unfold filtered
  split
  · exact scanChain_fresh _ _ h
  · exact ⟨congrArg (Pipe.filter .created e) ho.sift, ho.calm⟩

/-- The pipeline of a plain operator has no surplus. -/
theorem Op.pipe_fresh {op : Op} (hop : op.Plain) (ctx : Context) (g : ActiveGraph) {seed : Seed}
    (h : seed.Fresh) : (op.pipe ctx g seed).Fresh := by
  induction op generalizing g seed with
  | bgp | quadPattern => exact scanChain_fresh _ _ h
  | datasetNames name => exact ⟨congrArg (Pipe.names .created name none []) h.sift, h.calm⟩
  | table t => exact ⟨congrArg (Pipe.table .created t.rows .idle) h.sift, h.calm⟩
  | extension => cases hop
  | join l r ihl ihr => exact ihr hop.2 g (ihl hop.1 g h)
  | leftJoin l r condition ihl ihr =>
    have hl := ihl hop.1 g Seed.identity_fresh
    have hr := ihr hop.2 g Seed.identity_fresh
    refine Seed.joined_fresh h ?_
    split
    · exact ⟨congrArg (Pipe.optional .created r condition g) hl.sift, hop.2, hl.calm⟩
    · exact ⟨congrArg₂ (Pipe.joining .left condition) hl.sift hr.sift, hl.calm, hr.calm⟩
  | union l r ihl ihr =>
    exact Seed.branched_fresh h ctx.maxRows (fun _ => ihl hop.1 g) fun _ => ihr hop.2 g
  | filter e sub ih =>
    rw [pipe]
    split
    · exact sub.filtered_fresh ctx e g h (ih hop g h)
    · exact Seed.joined_fresh h
        (sub.filtered_fresh ctx e g Seed.identity_fresh (ih hop g Seed.identity_fresh))
  | graph name sub ih =>
    cases name with
    | term name => exact ih hop (.named name) h
    | var v => exact ⟨congrArg (Pipe.graphs .created v sub none .idle) h.sift, hop, h.calm⟩
  | order keys sub ih =>
    have hsub := ih hop g Seed.identity_fresh
    exact Seed.joined_fresh h
      ⟨congrArg (Pipe.order .created keys (.gathering #[])) hsub.sift, hsub.calm⟩
  | project vars sub ih =>
    have hsub := ih hop g Seed.identity_fresh
    exact Seed.joined_fresh h ⟨congrArg (Pipe.project .created vars) hsub.sift, hsub.calm⟩
  | distinct sub ih =>
    have hsub := ih hop g Seed.identity_fresh
    exact Seed.joined_fresh h
      ⟨congrArg (Pipe.distinct .created [] ctx.maxRows) hsub.sift, hsub.calm⟩
  | slice offset limit sub ih =>
    have hsub := ih hop g Seed.identity_fresh
    exact Seed.joined_fresh h
      ⟨congrArg (Pipe.slice .created offset limit) hsub.sift, hsub.calm⟩

/-- A seed of one row has no surplus. -/
theorem Seed.single_fresh (row : Binding) : (Seed.input (.single row)).Fresh := ⟨rfl, trivial⟩

/-- The pipeline of a plain operator does not depend on the dataset. -/
theorem Op.pipe_given {op : Op} (hop : op.Plain) (ctx : Context) (d : Dataset) (g : ActiveGraph)
    (seed : Seed) : op.pipe (ctx.given d) g seed = op.pipe ctx g seed := by
  have hcompile := compile_plain hop (ctx.given d) g seed
  rw [Context.given_inGraph, compile_given, compile_plain hop] at hcompile
  exact (Except.ok.inj (congrArg Compiled.result hcompile)).symm

end TripleQuery
