import TripleQuery.Proofs.Answers.Refinement

/-!
# Draining over a seed

What an operator yields over a seed is what it yields by itself, joined with the seed, if every
filter that rows are fed through stands over rows that bind all its variables
(`Op.seeding_is_joining`). Over a pattern every such filter does (`bindsAll_bgp`).
-/

namespace TripleQuery

open List

variable {ctx : Context} {store : QuadStore} {op : Op}

/-! ## Conditions over bound variables -/

/-- The rows that a subtree yields by itself, in whatever graph, bind every variable of a
condition. -/
def YieldsBound (ctx : Context) (e : Expr) (sub : Op) : Prop :=
  ∀ g rows, Yields (ctx.inGraph g) sub .identity rows →
    ∀ r ∈ rows, ∀ v ∈ e.mentions, r.contains v = true

theorem YieldsBound.bindsAll {e : Expr} (hop : op.Plain) (hdata : ctx.dataset = store.dataset)
    (hmax : ctx.config.maxRows = 0) (h : YieldsBound ctx e op) : BindsAll store e op := by
  intro g
  exact h g _ (yields_alone hop hdata hmax g)

theorem BindsAll.yieldsBound {e : Expr} (hop : op.Plain) (hdata : ctx.dataset = store.dataset)
    (hmax : ctx.config.maxRows = 0) (h : BindsAll store e op) : YieldsBound ctx e op := by
  intro g rows hrows
  rw [hrows.unique (yields_alone hop hdata hmax g)]
  exact h g

/-- The matches of some patterns bind the variables of the patterns, and what was bound before. -/
theorem solvePatterns_binds {slot : GraphSlot} {patterns : List TriplePattern}
    {rows : List Binding} {m : Binding} (hm : m ∈ store.solvePatterns slot patterns rows) :
    (∃ r ∈ rows, r.Extends m) ∧
      ∀ v ∈ patterns.flatMap TriplePattern.vars, m.contains v = true := by
  induction patterns generalizing rows with
  | nil => exact ⟨⟨m, hm, .refl m⟩, fun v hv => nomatch hv⟩
  | cons pattern patterns ih =>
    rw [solvePatterns_cons] at hm
    obtain ⟨⟨b, hb, hext⟩, hrest⟩ := ih hm
    obtain ⟨r, hr, hb⟩ := mem_flatMap.1 hb
    rw [← QuadStore.scanRows_source] at hb
    obtain ⟨hext', hvars⟩ := Source.scanRows_binds hb
    refine ⟨⟨r, hr, hext'.trans hext⟩, fun v hv => ?_⟩
    rw [flatMap_cons, mem_append] at hv
    rcases hv with hv | hv
    · exact Binding.contains_of_extends hext (hvars v (.inl hv))
    · exact hrest v hv

/-- Over a pattern, a condition on variables of the pattern has all of them bound. -/
theorem bindsAll_bgp {e : Expr} {patterns : List TriplePattern}
    (hc : coveredBy e.mentions (Op.bgp patterns).mentions = true) :
    BindsAll store e (.bgp patterns) := by
  intro g r hr v hv
  have hmentioned : v ∈ patterns.flatMap TriplePattern.vars :=
    contains_iff_mem.1 (all_eq_true.1 hc v hv)
  exact (solvePatterns_binds hr).2 v hmentioned

/-! ## Seeds and joins -/

/-- **Seeding is joining.** Suppose that the filters that rows are fed through have their variables
bound. Then over a single row an operator yields its own rows, as far as they are compatible,
merged with that row and in their order; and over a list of rows it yields all of these lists
together, up to order. -/
theorem Op.seeding_is_joining (hop : op.Plain) (hdata : ctx.dataset = store.dataset)
    (hmax : ctx.config.maxRows = 0) (hf : op.SeededFilters (YieldsBound ctx)) :
    ∃ own, Yields ctx op .identity own ∧
      (∀ s, Yields ctx op (.input (.bindings .created [s])) (mergeInto s own)) ∧
      ∀ rows, ∃ out, Yields ctx op (.input (.bindings .created rows)) out ∧
        out ~ rows.flatMap fun s => mergeInto s own := by
  have hsteady : op.SeededFilters (Steady store) :=
    hf.imp hop fun e sub hsub hbound => (hbound.bindsAll hsub hdata hmax).steady
  have hseed (rows : List Binding) : Yields ctx op (.input (.bindings .created rows))
      (op.solve store ctx.activeGraph rows) := yields_solve hop hdata hmax (some rows)
  refine ⟨op.solve store ctx.activeGraph [.empty], yields_solve hop hdata hmax none,
    fun s => ?_, fun rows => ⟨_, hseed rows, hsteady.feedable.solve_perm ctx.activeGraph rows⟩⟩
  rw [← op.solve_singleton hsteady ctx.activeGraph s]
  exact hseed [s]

open Instance in
theorem Op.seeding_is_joining_edges :
    ∃ own, Yields (context edges unlimited) query .identity own ∧
      (∀ s, Yields (context edges unlimited) query (.input (.bindings .created [s]))
        (mergeInto s own)) ∧
      ∀ rows, ∃ out, Yields (context edges unlimited) query (.input (.bindings .created rows)) out ∧
        out ~ rows.flatMap fun s => mergeInto s own := by
  have hplain : query.Plain := ⟨⟨trivial, trivial⟩, trivial⟩
  have hdata : (context edges unlimited).dataset = edges.dataset := rfl
  have hbound : YieldsBound (context edges unlimited) atEnd edge :=
    (bindsAll_bgp rfl).yieldsBound trivial hdata rfl
  exact seeding_is_joining hplain hdata rfl ⟨trivial, fun _ => ⟨hbound, trivial⟩⟩

end TripleQuery
