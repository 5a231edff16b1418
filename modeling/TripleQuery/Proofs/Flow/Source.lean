import TripleQuery.Proofs.Solutions.Basic

/-!
# Sources

A dataset that always answers, and always the same: a list of quads for each question, and a list
of graph names. For the quads that a store selects for a pattern and a row, checking them against
the pattern again finds what matching the pattern against the whole store does
(`QuadStore.scanRows_source`).
-/

namespace TripleQuery

/-- The answers of a dataset that neither fails nor cancels nor changes. -/
structure Source where
  quads : ScanRequest → List Quad
  names : List Term

namespace Source

/-- The dataset that gives the answers. -/
def dataset (src : Source) : Dataset where
  scan _ r := .ok ((src.quads r).map .quad)
  graphNames _ := .ok src.names

/-- What a scan makes of a row. -/
def scanRows (src : Source) (pattern : TriplePattern) (slot : GraphSlot) (row : Binding) :
    List Binding :=
  (src.quads (.ofPattern pattern slot row)).filterMap (bindQuad pattern slot row)

end Source

/-- The answers of a store. -/
def QuadStore.source (store : QuadStore) : Source := ⟨store.select, store.graphNames⟩

theorem QuadStore.dataset_source (store : QuadStore) : store.source.dataset = store.dataset := rfl

/-! ## Matching and asking -/

namespace Binding

theorem extends_of_extend {b m : Binding} {v : Variable} {t : Term} (h : b.extend v t = .ok m) :
    b.Extends m ∧ m.get? v = some t := by
  have hu : b.union? (single v t) = some m := by rw [union?_single, h]; rfl
  have hv : (single v t).get? v = some t := by rw [single, get?_insert, if_pos rfl]
  exact ⟨extends_left_of_union? hu, extends_right_of_union? hu v t hv⟩

theorem get?_eq_of_extend {b m : Binding} {v : Variable} {t u : Term} (h : b.extend v t = .ok m)
    (hu : b.get? v = some u) : u = t := by
  obtain ⟨hext, hv⟩ := extends_of_extend h
  have hm := hext v u hu
  rw [hv] at hm
  exact (Option.some.inj hm).symm

/-- A matching term is one that the position asks for, and matching goes on with a row that
extends the first one. -/
theorem matchAll_cons_some {b m : Binding} {p : TermPattern} {ps : List TermPattern} {t : Term}
    {ts : List Term} (h : b.matchAll (p :: ps) (t :: ts) = some m) :
    ScanRequest.accepts (p.resolve b) t = true ∧
      ∃ b', b.Extends b' ∧ b'.matchAll ps ts = some m := by
  cases p with
  | term u =>
    rw [matchAll] at h
    by_cases hu : u = t
    · rw [if_pos hu] at h
      refine ⟨?_, b, .refl b, h⟩
      show (u == t) = true
      rw [hu, beq_self_eq_true]
    · rw [if_neg hu] at h
      cases h
  | var v =>
    rw [matchAll] at h
    cases he : b.extend v t with
    | error c =>
      rw [he] at h
      cases h
    | ok b' =>
      rw [he] at h
      refine ⟨?_, b', (extends_of_extend he).1, h⟩
      show (b.get? v).all (· == t) = true
      cases hv : b.get? v with
      | none => rfl
      | some u =>
        rw [get?_eq_of_extend he hv]
        exact beq_self_eq_true t

/-- What a larger row lets through, a smaller one does. -/
theorem accepts_of_extends {b b' : Binding} (h : b.Extends b') {p : TermPattern} {t : Term}
    (ha : ScanRequest.accepts (p.resolve b') t = true) :
    ScanRequest.accepts (p.resolve b) t = true := by
  cases p with
  | term u => exact ha
  | var v =>
    show (b.get? v).all (· == t) = true
    cases hv : b.get? v with
    | none => rfl
    | some u =>
      have ha' : (b'.get? v).all (· == t) = true := ha
      rwa [h v u hv] at ha'

end Binding

theorem fits_of_matchAll {pattern : TriplePattern} {slot : GraphSlot} {row m : Binding} {q : Quad}
    (h : row.matchAll pattern.positions q.terms = some m) :
    (ScanRequest.ofPattern pattern slot row).fits q = true ∧ row.Extends m := by
  obtain ⟨hs, b₁, hext₁, h₁⟩ := Binding.matchAll_cons_some h
  obtain ⟨hp, b₂, hext₂, h₂⟩ := Binding.matchAll_cons_some h₁
  obtain ⟨ho, b₃, hext₃, h₃⟩ := Binding.matchAll_cons_some h₂
  obtain rfl : b₃ = m := Option.some.inj h₃
  have hp' := Binding.accepts_of_extends hext₁ hp
  have ho' := Binding.accepts_of_extends (hext₁.trans hext₂) ho
  refine ⟨?_, (hext₁.trans hext₂).trans hext₃⟩
  show (ScanRequest.accepts (pattern.subject.resolve row) q.subject &&
    ScanRequest.accepts (pattern.predicate.resolve row) q.predicate &&
    ScanRequest.accepts (pattern.object.resolve row) q.object) = true
  rw [hs, hp', ho']
  rfl

theorem covers_of_targets {pattern : TriplePattern} {slot : GraphSlot} {row : Binding}
    {graph : Option Term} (h : (ScanRequest.ofPattern pattern slot row).targets graph = true) :
    slot.covers graph = true := by
  cases slot with
  | default => exact h
  | named name => exact h
  | var v =>
    unfold ScanRequest.targets ScanRequest.ofPattern GraphSlot.target at h
    cases hv : row.get? v with
    | none =>
      simp only [hv, Option.elim_none] at h
      exact h
    | some name =>
      simp only [hv, Option.elim_some, beq_iff_eq] at h
      rw [h]
      rfl

theorem targets_of_bind {pattern : TriplePattern} {slot : GraphSlot} {row b m : Binding}
    {graph : Option Term} (hext : row.Extends b) (hc : slot.covers graph = true)
    (h : slot.bind graph b = some m) :
    (ScanRequest.ofPattern pattern slot row).targets graph = true := by
  cases slot with
  | default => exact hc
  | named name => exact hc
  | var v =>
    cases graph with
    | none => cases h
    | some name =>
      have hbind : (b.extend v name).toOption = some m := h
      cases he : b.extend v name with
      | error c =>
        rw [he] at hbind
        cases hbind
      | ok b' =>
        unfold ScanRequest.targets ScanRequest.ofPattern GraphSlot.target
        cases hv : row.get? v with
        | none => simp [hv]
        | some u =>
          obtain rfl := Binding.get?_eq_of_extend he (hext v u hv)
          simp [hv]

/-- **Asking is matching.** Among the quads that a store selects for a pattern and a row are all
that can extend the row. -/
theorem QuadStore.scanRows_source (store : QuadStore) (pattern : TriplePattern) (slot : GraphSlot)
    (row : Binding) :
    store.source.scanRows pattern slot row = store.matchQuads slot pattern row := by
  unfold Source.scanRows QuadStore.matchQuads
  show (store.quads.filter (ScanRequest.ofPattern pattern slot row).selects).filterMap _ = _
  rw [List.filterMap_filter]
  refine congrArg (List.filterMap · store.quads) (funext fun q => ?_)
  unfold ScanRequest.selects
  by_cases hc : slot.covers q.graph = true
  · rw [if_pos hc]
    cases hb : bindQuad pattern slot row q with
    | none => exact ite_self none
    | some m =>
      unfold bindQuad at hb
      obtain ⟨b, hmatch, hbind⟩ := Option.bind_eq_some_iff.1 hb
      obtain ⟨hfits, hext⟩ := fits_of_matchAll hmatch
      rw [hfits, targets_of_bind hext hc hbind]
      rfl
  · have ht : (ScanRequest.ofPattern pattern slot row).targets q.graph = false :=
      eq_false_of_ne_true fun ht => hc (covers_of_targets ht)
    rw [if_neg hc, ht]
    rfl

end TripleQuery
