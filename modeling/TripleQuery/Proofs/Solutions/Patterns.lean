import Mathlib.Data.List.Nodup
import TripleQuery.Proofs.Flow.Source
import TripleQuery.Proofs.Solutions.Seeding

/-!
# Solutions of patterns

What it means for a row to solve some patterns, without matching one pattern after another: it
extends the row that one starts from by the variables of the patterns, and under it every pattern
is a quad of the store (`QuadStore.Solves`). Matching the patterns one by one finds these rows
(`mem_solvePatterns`), each of them once (`nodup_solvePatterns`).
-/

namespace TripleQuery

open List

/-! ## Extending by some variables -/

namespace Binding

/-- The second binding extends the first one by some variables and no others. -/
structure ExtendsBy (vars : List Variable) (b m : Binding) : Prop where
  entries : b.Extends m
  domain (v : Variable) : m.contains v = true ↔ b.contains v = true ∨ v ∈ vars

variable {b c m n : Binding} {vs ws : List Variable} {v : Variable} {t : Term}

theorem contains_iff_exists : b.contains v = true ↔ ∃ t, b.get? v = some t :=
  Option.isSome_iff_exists

/-- Two bindings of the same variables that have a common extension are the same. -/
theorem eq_of_extends (hb : b.Extends n) (hc : c.Extends n)
    (h : ∀ v, b.contains v = true ↔ c.contains v = true) : b = c := by
  refine ext_get? fun v => ?_
  cases hbv : b.get? v with
  | some t =>
    obtain ⟨u, hu⟩ := contains_iff_exists.1 ((h v).1 (contains_iff_exists.2 ⟨t, hbv⟩))
    rw [hu, ← hb v t hbv, hc v u hu]
  | none =>
    cases hcv : c.get? v with
    | none => rfl
    | some u =>
      obtain ⟨t, ht⟩ := contains_iff_exists.1 ((h v).2 (contains_iff_exists.2 ⟨u, hcv⟩))
      rw [hbv] at ht
      cases ht

namespace ExtendsBy

theorem refl (b : Binding) : ExtendsBy [] b b := ⟨.refl b, fun v => by simp⟩

theorem trans (h : ExtendsBy vs b m) (h' : ExtendsBy ws m n) : ExtendsBy (vs ++ ws) b n where
  entries := h.entries.trans h'.entries
  domain v := by rw [h'.domain, h.domain, mem_append, or_assoc]

theorem congr (h : ExtendsBy vs b m) (hvars : ∀ v, v ∈ vs ↔ v ∈ ws) : ExtendsBy ws b m :=
  ⟨h.entries, fun v => by rw [h.domain, hvars]⟩

/-- Two extensions by the same variables that have a common extension are the same. -/
theorem unique (hm : ExtendsBy vs b m) (hc : ExtendsBy vs b c) (hmn : m.Extends n)
    (hcn : c.Extends n) : m = c :=
  eq_of_extends hmn hcn fun v => by rw [hm.domain, hc.domain]

end ExtendsBy

/-! ## Matching -/

theorem extend_sound (h : (b.extend v t).toOption = some m) :
    ExtendsBy [v] b m ∧ m.get? v = some t := by
  cases he : b.extend v t with
  | error c =>
    rw [he] at h
    cases h
  | ok n =>
    have hagree : ∀ u, b.get? v = some u → u = t := fun u hu => get?_eq_of_extend he hu
    obtain ⟨hext, hv⟩ := extends_of_extend he
    rw [extend_of_agree hagree] at he h
    cases he
    cases h
    refine ⟨⟨hext, fun w => ?_⟩, hv⟩
    simp only [contains, get?_insert, mem_singleton]
    by_cases hw : w = v <;> simp [hw]

theorem extend_complete (hext : b.Extends m) (hv : m.get? v = some t) :
    ∃ n, (b.extend v t).toOption = some n ∧ n.Extends m := by
  have hagree : ∀ u, b.get? v = some u → u = t := by
    intro u hu
    rw [hext v u hu] at hv
    exact Option.some.inj hv
  refine ⟨b.insert v t, by rw [extend_of_agree hagree]; rfl, fun w u hw => ?_⟩
  rw [get?_insert] at hw
  by_cases hwv : w = v
  · rw [if_pos hwv] at hw
    rw [hwv, hv, hw]
  · rw [if_neg hwv] at hw
    exact hext w u hw

end Binding

theorem TermPattern.resolve_of_extends {p : TermPattern} {m n : Binding} {t : Term}
    (hext : m.Extends n) (h : p.resolve m = some t) : p.resolve n = some t := by
  cases p with
  | term u => exact h
  | var v => exact hext v t h

/-- Matching terms extends a row by the variables of the positions, and under the result the
positions are the terms. -/
theorem matchAll_sound {b m : Binding} {ps : List TermPattern} {ts : List Term}
    (hlen : ps.length = ts.length) (h : b.matchAll ps ts = some m) :
    b.ExtendsBy (ps.flatMap TermPattern.vars) m ∧ ps.map (·.resolve m) = ts.map some := by
  induction ps generalizing b ts with
  | nil =>
    obtain rfl : ts = [] := length_eq_zero_iff.1 hlen.symm
    cases h
    exact ⟨.refl _, rfl⟩
  | cons p ps ih =>
    obtain ⟨t, ts, rfl⟩ := exists_cons_of_length_eq_add_one hlen.symm
    have hrest : ps.length = ts.length := Nat.succ.inj hlen
    cases p with
    | term u =>
      rw [Binding.matchAll] at h
      split at h
      · next hu =>
        obtain ⟨hext, hmap⟩ := ih hrest h
        rw [map_cons, map_cons, hmap, ← hu]
        exact ⟨hext, rfl⟩
      · cases h
    | var v =>
      rw [matchAll_var_cons] at h
      obtain ⟨c, hc, hm⟩ := Option.bind_eq_some_iff.1 h
      obtain ⟨hbc, hv⟩ := Binding.extend_sound hc
      obtain ⟨hext, hmap⟩ := ih hrest hm
      rw [map_cons, map_cons, hmap, ← hext.entries v t hv]
      exact ⟨hbc.trans hext, rfl⟩

theorem matchAll_complete {b m : Binding} {ps : List TermPattern} {ts : List Term}
    (hext : b.Extends m) (h : ps.map (·.resolve m) = ts.map some) :
    ∃ n, b.matchAll ps ts = some n ∧ n.Extends m := by
  induction ps generalizing b ts with
  | nil =>
    obtain rfl : ts = [] := map_eq_nil_iff.1 h.symm
    exact ⟨b, rfl, hext⟩
  | cons p ps ih =>
    cases ts with
    | nil => cases h
    | cons t ts =>
      rw [map_cons, map_cons, cons.injEq] at h
      obtain ⟨hp, hrest⟩ := h
      cases p with
      | term u =>
        rw [Binding.matchAll, if_pos (Option.some.inj hp)]
        exact ih hext hrest
      | var v =>
        obtain ⟨c, hc, hcm⟩ := Binding.extend_complete hext hp
        rw [matchAll_var_cons, hc]
        exact ih hcm hrest

/-! ## Patterns as quads -/

/-- The graph that a slot stands for under a binding: none before its variable is bound, and the
default graph has no name. -/
def GraphSlot.graph? (slot : GraphSlot) (m : Binding) : Option (Option Term) :=
  match slot with
  | .default => some none
  | .named name => some (some name)
  | .var v => (m.get? v).map some

/-- Under a binding, a pattern in a slot is a quad. -/
structure TriplePattern.Becomes (pattern : TriplePattern) (slot : GraphSlot) (m : Binding)
    (q : Quad) : Prop where
  subject : pattern.subject.resolve m = some q.subject
  predicate : pattern.predicate.resolve m = some q.predicate
  object : pattern.object.resolve m = some q.object
  graph : slot.graph? m = some q.graph

variable {pattern : TriplePattern} {slot : GraphSlot} {b m n : Binding} {q : Quad}

theorem positions_eq_terms_iff : pattern.positions.map (·.resolve m) = q.terms.map some ↔
    pattern.subject.resolve m = some q.subject ∧ pattern.predicate.resolve m = some q.predicate ∧
      pattern.object.resolve m = some q.object := by
  simp [TriplePattern.positions, Quad.terms]

theorem GraphSlot.graph?_of_extends {graph : Option Term} (hext : m.Extends n)
    (h : slot.graph? m = some graph) : slot.graph? n = some graph := by
  cases slot with
  | default => exact h
  | named name => exact h
  | var v =>
    obtain ⟨name, hv, rfl⟩ := Option.map_eq_some_iff.1 h
    exact Option.map_eq_some_iff.2 ⟨name, hext v name hv, rfl⟩

theorem TriplePattern.Becomes.of_extends (h : pattern.Becomes slot m q) (hext : m.Extends n) :
    pattern.Becomes slot n q where
  subject := TermPattern.resolve_of_extends hext h.subject
  predicate := TermPattern.resolve_of_extends hext h.predicate
  object := TermPattern.resolve_of_extends hext h.object
  graph := GraphSlot.graph?_of_extends hext h.graph

/-- A binding makes one quad of a pattern. -/
theorem TriplePattern.Becomes.unique {r : Quad} (h : pattern.Becomes slot m q)
    (h' : pattern.Becomes slot m r) : q = r := by
  obtain ⟨hs, hp, ho, hg⟩ := h
  rw [h'.subject] at hs
  rw [h'.predicate] at hp
  rw [h'.object] at ho
  rw [h'.graph] at hg
  cases q
  cases r
  simp_all

theorem slotBind_sound {graph : Option Term} (hc : slot.covers graph = true)
    (h : slot.bind graph b = some m) :
    b.ExtendsBy slot.vars m ∧ slot.graph? m = some graph := by
  cases slot with
  | default =>
    obtain rfl : graph = none := Option.isNone_iff_eq_none.1 hc
    cases h
    exact ⟨.refl b, rfl⟩
  | named name =>
    obtain rfl : graph = some name := beq_iff_eq.1 hc
    cases h
    exact ⟨.refl b, rfl⟩
  | var v =>
    obtain ⟨name, rfl⟩ := Option.isSome_iff_exists.1 hc
    obtain ⟨hext, hv⟩ := Binding.extend_sound h
    exact ⟨hext, Option.map_eq_some_iff.2 ⟨name, hv, rfl⟩⟩

theorem slotBind_complete {graph : Option Term} (hext : b.Extends m)
    (h : slot.graph? m = some graph) :
    slot.covers graph = true ∧ ∃ n, slot.bind graph b = some n ∧ n.Extends m := by
  cases slot with
  | default =>
    cases h
    exact ⟨rfl, b, rfl, hext⟩
  | named name =>
    cases h
    exact ⟨beq_self_eq_true _, b, rfl, hext⟩
  | var v =>
    obtain ⟨name, hv, rfl⟩ := Option.map_eq_some_iff.1 h
    obtain ⟨n, hn, hnm⟩ := Binding.extend_complete hext hv
    exact ⟨rfl, n, hn, hnm⟩

/-- **One match.** A quad extends a row by the variables of pattern and slot, and the pattern
becomes the quad. -/
theorem bindQuad_sound (hc : slot.covers q.graph = true)
    (h : bindQuad pattern slot b q = some m) :
    b.ExtendsBy (pattern.vars ++ slot.vars) m ∧ pattern.Becomes slot m q := by
  obtain ⟨c, hmatch, hslot⟩ := Option.bind_eq_some_iff.1 h
  have hlength : pattern.positions.length = q.terms.length := rfl
  obtain ⟨hbc, hterms⟩ := matchAll_sound hlength hmatch
  obtain ⟨hcm, hgraph⟩ := slotBind_sound hc hslot
  obtain ⟨hs, hp, ho⟩ := positions_eq_terms_iff.1 hterms
  refine ⟨hbc.trans hcm, ?_, ?_, ?_, hgraph⟩
  · exact TermPattern.resolve_of_extends hcm.entries hs
  · exact TermPattern.resolve_of_extends hcm.entries hp
  · exact TermPattern.resolve_of_extends hcm.entries ho

theorem bindQuad_complete (hext : b.Extends m) (h : pattern.Becomes slot m q) :
    slot.covers q.graph = true ∧ ∃ n, bindQuad pattern slot b q = some n ∧ n.Extends m := by
  obtain ⟨c, hmatch, hcm⟩ := matchAll_complete hext
    (positions_eq_terms_iff.2 ⟨h.subject, h.predicate, h.object⟩)
  obtain ⟨hc, n, hslot, hnm⟩ := slotBind_complete hcm h.graph
  exact ⟨hc, n, Option.bind_eq_some_iff.2 ⟨c, hmatch, hslot⟩, hnm⟩

/-! ## Solving patterns -/

/-- The variables that some patterns bind in a slot. -/
def GraphSlot.scanVars (slot : GraphSlot) (ps : List TriplePattern) : List Variable :=
  ps.flatMap fun p => p.vars ++ slot.vars

/-- A row solves some patterns in a slot, from a row to start with: it extends that row, by the
variables of the patterns and by the variable of the slot if there is a pattern at all, and every
pattern is a quad of the store under it. -/
structure QuadStore.Solves (store : QuadStore) (slot : GraphSlot) (ps : List TriplePattern)
    (s m : Binding) : Prop where
  entries : s.Extends m
  domain (v : Variable) : m.contains v = true ↔ s.contains v = true ∨
    v ∈ ps.flatMap TriplePattern.vars ∨ (ps ≠ [] ∧ v ∈ slot.vars)
  stored : ∀ p ∈ ps, ∃ q ∈ store.quads, p.Becomes slot m q

theorem GraphSlot.mem_scanVars {ps : List TriplePattern} {v : Variable} :
    v ∈ slot.scanVars ps ↔ v ∈ ps.flatMap TriplePattern.vars ∨ (ps ≠ [] ∧ v ∈ slot.vars) := by
  have hne : ps ≠ [] ↔ ∃ p, p ∈ ps := ⟨exists_mem_of_ne_nil ps, fun ⟨p, hp⟩ => ne_nil_of_mem hp⟩
  simp only [scanVars, mem_flatMap, mem_append, hne]
  constructor
  · rintro ⟨p, hp, hv | hv⟩
    · exact .inl ⟨p, hp, hv⟩
    · exact .inr ⟨⟨p, hp⟩, hv⟩
  · rintro (⟨p, hp, hv⟩ | ⟨⟨p, hp⟩, hv⟩)
    · exact ⟨p, hp, .inl hv⟩
    · exact ⟨p, hp, .inr hv⟩

variable {store : QuadStore} {ps ps' : List TriplePattern} {s : Binding}

theorem QuadStore.solves_iff : store.Solves slot ps s m ↔ s.ExtendsBy (slot.scanVars ps) m ∧
    ∀ p ∈ ps, ∃ q ∈ store.quads, p.Becomes slot m q := by
  constructor
  · intro h
    exact ⟨⟨h.entries, fun v => by rw [h.domain, GraphSlot.mem_scanVars]⟩, h.stored⟩
  · rintro ⟨hext, hstored⟩
    exact ⟨hext.entries, fun v => by rw [hext.domain, GraphSlot.mem_scanVars], hstored⟩

/-- The order of the patterns does not matter. -/
theorem QuadStore.Solves.perm (h : store.Solves slot ps s m) (hps : ps ~ ps') :
    store.Solves slot ps' s m := by
  rw [solves_iff] at h ⊢
  obtain ⟨hext, hstored⟩ := h
  exact ⟨hext.congr fun v => (hps.flatMap_right _).mem_iff,
    fun p hp => hstored p (hps.mem_iff.2 hp)⟩

theorem mem_matchQuads : m ∈ store.matchQuads slot pattern b ↔
    ∃ q ∈ store.quads, slot.covers q.graph = true ∧ bindQuad pattern slot b q = some m := by
  unfold QuadStore.matchQuads
  rw [mem_filterMap]
  refine exists_congr fun q => and_congr_right fun _ => ?_
  by_cases hc : slot.covers q.graph = true <;> simp [hc]

theorem matchQuads_sound (h : m ∈ store.matchQuads slot pattern b) :
    b.ExtendsBy (pattern.vars ++ slot.vars) m ∧
      ∃ q ∈ store.quads, pattern.Becomes slot m q := by
  obtain ⟨q, hq, hc, hbind⟩ := mem_matchQuads.1 h
  obtain ⟨hext, hbecomes⟩ := bindQuad_sound hc hbind
  exact ⟨hext, q, hq, hbecomes⟩

theorem solvePatterns_cons_single :
    store.solvePatterns slot (pattern :: ps) [s] =
      (store.matchQuads slot pattern s).flatMap fun n => store.solvePatterns slot ps [n] := by
  rw [solvePatterns_cons, flatMap_singleton, solvePatterns_eq_flatMap]

/-- **Sound.** The rows that matching one pattern after another finds are solutions. -/
theorem solvePatterns_sound (h : m ∈ store.solvePatterns slot ps [s]) :
    store.Solves slot ps s m := by
  rw [QuadStore.solves_iff]
  induction ps generalizing s with
  | nil =>
    obtain rfl : m = s := mem_singleton.1 h
    exact ⟨.refl m, fun p hp => absurd hp not_mem_nil⟩
  | cons p ps ih =>
    rw [solvePatterns_cons_single] at h
    obtain ⟨n, hn, hm⟩ := mem_flatMap.1 h
    obtain ⟨hsn, q, hq, hbecomes⟩ := matchQuads_sound hn
    obtain ⟨hnm, hstored⟩ := ih hm
    refine ⟨hsn.trans hnm, fun p' hp' => ?_⟩
    rcases mem_cons.1 hp' with rfl | hp'
    · exact ⟨q, hq, hbecomes.of_extends hnm.entries⟩
    · exact hstored p' hp'

/-- **Complete.** A row under which every pattern is stored extends one that is found. -/
theorem solvePatterns_complete (hext : s.Extends m)
    (h : ∀ p ∈ ps, ∃ q ∈ store.quads, p.Becomes slot m q) :
    ∃ r ∈ store.solvePatterns slot ps [s], r.Extends m := by
  induction ps generalizing s with
  | nil => exact ⟨s, mem_singleton_self s, hext⟩
  | cons p ps ih =>
    obtain ⟨q, hq, hbecomes⟩ := h p mem_cons_self
    obtain ⟨hc, n, hbind, hnm⟩ := bindQuad_complete hext hbecomes
    obtain ⟨r, hr, hrm⟩ := ih hnm fun p' hp' => h p' (mem_cons_of_mem p hp')
    rw [solvePatterns_cons_single]
    exact ⟨r, mem_flatMap.2 ⟨n, mem_matchQuads.2 ⟨q, hq, hc, hbind⟩, hr⟩, hrm⟩

/-- **Exactly the solutions.** Matching one pattern after another finds the rows that solve them
all. -/
theorem mem_solvePatterns :
    m ∈ store.solvePatterns slot ps [s] ↔ store.Solves slot ps s m := by
  constructor
  · exact solvePatterns_sound
  · intro h
    obtain ⟨r, hr, hrm⟩ := solvePatterns_complete h.entries h.stored
    have hsr := (QuadStore.solves_iff.1 (solvePatterns_sound hr)).1
    have hsm := (QuadStore.solves_iff.1 h).1
    rwa [← hsr.unique hsm hrm (.refl m)]

/-! ## Each solution once -/

theorem QuadStore.nodup_quads (store : QuadStore) : store.quads.Nodup := by
  refine store.ordered.imp fun {q r} hlt heq => ?_
  have hself : r.order r = .eq := Std.ReflCmp.compare_self
  rw [heq, hself] at hlt
  cases hlt

/-- Different quads extend a row differently. -/
theorem nodup_matchQuads : (store.matchQuads slot pattern b).Nodup := by
  refine Nodup.filterMap (fun q r m hq hr => ?_) store.nodup_quads
  have hbecomes {q : Quad}
      (h : m ∈ if slot.covers q.graph then bindQuad pattern slot b q else none) :
      pattern.Becomes slot m q := by
    by_cases hc : slot.covers q.graph = true
    · rw [if_pos hc] at h
      exact (bindQuad_sound hc h).2
    · rw [if_neg hc] at h
      cases h
  exact (hbecomes hq).unique (hbecomes hr)

/-- **Once each.** Two rows found for one pattern bind the same variables; so if they differ, no
solution extends both. -/
theorem nodup_solvePatterns : (store.solvePatterns slot ps [s]).Nodup := by
  induction ps generalizing s with
  | nil => exact nodup_singleton s
  | cons p ps ih =>
    rw [solvePatterns_cons_single, nodup_flatMap]
    refine ⟨fun n _ => ih, nodup_matchQuads.imp_of_mem fun {n n'} hn hn' hne => ?_⟩
    intro m hm hm'
    exact hne ((matchQuads_sound hn).1.unique (matchQuads_sound hn').1
      (solvePatterns_sound hm).entries (solvePatterns_sound hm').entries)

end TripleQuery
