import TripleQuery.Proofs.Flow.Approx
import TripleQuery.Proofs.Flow.Source
import TripleQuery.Proofs.Solutions.Seeding

/-!
# The flow of an operator

What the pipeline of an operator gives out, for any configuration, as a function of what flows
into it. The function follows the construction of pipelines and keeps what distinguishes
configurations: how optional joins are realized and where a buffer is limited. `Op.flow_approx`
compares it with the solutions of the operator, which know of neither.
-/

namespace TripleQuery

/-! ## Seeds -/

/-- What flows in: one row that binds nothing, if there is no input. -/
def Flow.ofSeed (seed : Option Flow) : Flow := seed.getD (.single .empty)

/-- What an operator gives out by itself, joined with its input, if there is one. -/
def Flow.apart (m : Nat) (seed : Option Flow) (own : Flow) : Flow :=
  match seed with
  | none => own
  | some f => f.join m .inner none own

/-- The rows of a flow that is read by several readers, if there is one. -/
def Flow.shared (m : Nat) (seed : Option Flow) : Option Flow := seed.map (·.limit m 0)

/-! ## The flow -/

/-- Rows extended by what scans of some patterns find, pattern by pattern. -/
def Source.scanAll (src : Source) (slot : GraphSlot) (patterns : List TriplePattern) (f : Flow) :
    Flow :=
  patterns.foldl (fun f pattern => f.expand (src.scanRows pattern slot)) f

/-- Sorted rows. -/
def Flow.sorted (keys : List SortKey) (rows : List Binding) : Flow :=
  .ofRows (sortRows keys (rows.map fun row => (keyValues keys row, row)))

/-- What an operator gives out over some input. Extensions are opaque and give nothing here. -/
def Op.flow (src : Source) (cfg : Config) : Op → ActiveGraph → Option Flow → Flow
  | .bgp patterns, g, seed => src.scanAll (.ofActive g) patterns (.ofSeed seed)
  | .quadPattern name patterns, _, seed => src.scanAll (.ofPattern name) patterns (.ofSeed seed)
  | .datasetNames name, _, seed => (Flow.ofSeed seed).expand (nameRows name src.names)
  | .table t, _, seed =>
    if t.rows.isEmpty then .done else (Flow.ofSeed seed).expand fun row => mergeInto row t.rows
  | .extension _, _, _ => .done
  | .join l r, g, seed => r.flow src cfg g (some (l.flow src cfg g seed))
  | .leftJoin l r condition, g, seed =>
    .apart cfg.maxRows.toNat seed <|
      if cfg.leftJoin = .auto ∧ r.isProbeable then
        (l.flow src cfg g none).bind fun row =>
          (r.flow src cfg g (some (.single row))).probe condition row false
      else (l.flow src cfg g none).join cfg.maxRows.toNat .left condition (r.flow src cfg g none)
  | .union l r, g, seed =>
    l.flow src cfg g (Flow.shared cfg.maxRows.toNat seed) ++
      r.flow src cfg g (Flow.shared cfg.maxRows.toNat seed)
  | .filter e sub, g, seed =>
    if coveredBy e.mentions sub.mentions then (sub.flow src cfg g seed).filter e.admits
    else .apart cfg.maxRows.toNat seed ((sub.flow src cfg g none).filter e.admits)
  | .graph (.term name) sub, _, seed => sub.flow src cfg (.named name) seed
  | .graph (.var v) sub, _, seed =>
    (Flow.ofSeed seed).bind fun row => Flow.overAll (candidateGraphs v src.names row) fun name =>
      match row.extend v name with
      | .ok row => sub.flow src cfg (.named name) (some (.single row))
      | .error _ => .done
  | .order keys sub, g, seed =>
    .apart cfg.maxRows.toNat seed <|
      (sub.flow src cfg g none).gather cfg.maxRows.toNat (.sorted keys) []
  | .project vars sub, g, seed =>
    .apart cfg.maxRows.toNat seed <|
      (sub.flow src cfg g none).expand fun row => [row.project vars]
  | .distinct sub, g, seed =>
    .apart cfg.maxRows.toNat seed <| (sub.flow src cfg g none).distinct cfg.maxRows.toNat []
  | .slice offset limit sub, g, seed =>
    .apart cfg.maxRows.toNat seed <| (sub.flow src cfg g none).slice offset limit

/-! ## Approximating the solutions -/

theorem sorted_keyed (keys : List SortKey) (rows : List Binding) :
    sortRows keys (rows.map fun row => (keyValues keys row, row)) =
      rows.mergeSort (sortsBefore keys) := by
  let keyed (row : Binding) : List (Option Term) × Binding := (keyValues keys row, row)
  have hsort : (rows.mergeSort (sortsBefore keys)).map keyed =
      (rows.map keyed).mergeSort fun a b => (compareKeys keys a.1 b.1).isLE :=
    List.map_mergeSort fun _ _ _ _ => rfl
  have hrow : ((·.2) ∘ keyed) = id := rfl
  unfold sortRows
  rw [← hsort, List.map_map, hrow, List.map_id]

variable {store : QuadStore}

theorem nameRows_eq (name : TermPattern) (row : Binding) :
    nameRows name store.graphNames row = mergeInto row (store.nameTable name) := by
  cases name with
  | term t =>
    unfold nameRows QuadStore.nameTable
    by_cases ht : t ∈ store.graphNames
    · simp [ht, mergeInto_unit]
    · simp [ht]
  | var v =>
    unfold nameRows QuadStore.nameTable mergeInto
    rw [List.filterMap_map]
    refine congrArg (List.filterMap · store.graphNames) (funext fun t => ?_)
    exact (Binding.union?_single row v t).symm

/-- The graphs that are left out for a row are those that the row rules out. -/
theorem flatMap_candidateGraphs (v : Variable) (names : List Term) (row : Binding)
    {l : Term → List Binding} (h : ∀ name, (∀ m, row.extend v name ≠ .ok m) → l name = []) :
    (candidateGraphs v names row).flatMap l = names.flatMap l := by
  unfold candidateGraphs
  cases hv : row.get? v with
  | none => rfl
  | some u =>
    show (names.filter (· == u)).flatMap l = names.flatMap l
    induction names with
    | nil => rfl
    | cons name names ih =>
      rw [List.flatMap_cons, ← ih, List.filter_cons]
      by_cases hu : name = u
      · rw [if_pos (beq_iff_eq.2 hu), List.flatMap_cons]
      · have hnil : l name = [] := h name fun m hm => hu (Binding.get?_eq_of_extend hm hv).symm
        rw [if_neg fun hn => hu (beq_iff_eq.1 hn), hnil, List.nil_append]

namespace Approx

variable {m : Nat}

theorem ofSeed_none {rows : List Binding} (h : Approx m (.ofSeed none) rows) : rows = [.empty] := by
  cases h with
  | row b h =>
    cases h
    rfl

theorem apart {seed : Option Flow} {rows bs : List Binding} {own : Flow}
    (hs : Approx m (.ofSeed seed) rows) (h : Approx m own bs) :
    Approx m (.apart m seed own) (joinRows rows bs) := by
  cases seed with
  | none =>
    rw [hs.ofSeed_none, joinRows_unit]
    exact h
  | some f => exact hs.innerJoin h

theorem shared {seed : Option Flow} {rows : List Binding} (hs : Approx m (.ofSeed seed) rows) :
    Approx m (.ofSeed (Flow.shared m seed)) rows := by
  cases seed with
  | none => exact hs
  | some f => exact hs.limit 0 fun _ => Nat.zero_le m

theorem scanAll {f : Flow} {rows : List Binding} (h : Approx m f rows) (slot : GraphSlot)
    (patterns : List TriplePattern) :
    Approx m (store.source.scanAll slot patterns f) (store.solvePatterns slot patterns rows) := by
  induction patterns generalizing f rows with
  | nil => exact h
  | cons p patterns ih =>
    have hp : store.source.scanRows p slot = store.matchQuads slot p :=
      funext (store.scanRows_source p slot)
    have hstep : Approx m (f.expand (store.source.scanRows p slot))
        (rows.flatMap (store.matchQuads slot p)) := by
      rw [hp]
      exact h.expand _
    exact ih hstep

end Approx

/-- The flow for a single row. -/
theorem approx_single (m : Nat) (row : Binding) :
    Approx m (.ofSeed (some (.single row))) [row] :=
  .row row .done

theorem solve_optional {r : Op} (hr : r.isProbeable = true) (g : ActiveGraph) (row : Binding) :
    r.solve store g [row] = mergeInto row (r.solve store g [.empty]) := by
  refine Op.solve_singleton ?_ g row
  cases r with
  | bgp _ | quadPattern _ _ => trivial
  | _ => cases hr

/-- **Flows approximate solutions.** Whatever the configuration, what an operator gives out are its
solutions, unless a buffer grows past the limit. -/
theorem Op.flow_approx (cfg : Config) {op : Op} (hop : op.Plain) (g : ActiveGraph)
    {seed : Option Flow} {rows : List Binding}
    (hs : Approx cfg.maxRows.toNat (.ofSeed seed) rows) :
    Approx cfg.maxRows.toNat (op.flow store.source cfg g seed) (op.solve store g rows) := by
  have hunit : Approx cfg.maxRows.toNat (.ofSeed none) [.empty] := .row .empty .done
  induction op generalizing g seed rows with
  | bgp patterns => exact hs.scanAll _ patterns
  | quadPattern name patterns => exact hs.scanAll _ patterns
  | datasetNames name =>
    have hrows : nameRows name store.graphNames = fun row => mergeInto row (store.nameTable name) :=
      funext (nameRows_eq name)
    show Approx _ ((Flow.ofSeed seed).expand (nameRows name store.graphNames)) _
    rw [hrows]
    exact hs.expand _
  | table t =>
    rw [flow, solve]
    by_cases ht : t.rows.isEmpty
    · rw [if_pos ht, List.isEmpty_iff.1 ht]
      have hnil : joinRows rows [] = [] := by simp [joinRows]
      rw [hnil]
      exact .done
    · rw [if_neg ht]
      exact hs.expand _
  | extension ext => cases hop
  | join l r ihl ihr => exact ihr hop.2 g (ihl hop.1 g hs)
  | leftJoin l r condition ihl ihr =>
    rw [flow, solve]
    refine hs.apart ?_
    by_cases hprobe : cfg.leftJoin = .auto ∧ r.isProbeable
    · rw [if_pos hprobe]
      refine (ihl hop.1 g hunit).bind fun row => ?_
      have hrow := (ihr hop.2 g (approx_single _ row)).probe condition row false
      rwa [solve_optional hprobe.2, ← optionalRows_eq] at hrow
    · rw [if_neg hprobe]
      exact (ihl hop.1 g hunit).leftJoin condition (ihr hop.2 g hunit)
  | union l r ihl ihr => exact (ihl hop.1 g hs.shared).append (ihr hop.2 g hs.shared)
  | filter e sub ih =>
    rw [flow, solve]
    by_cases hc : coveredBy e.mentions sub.mentions
    · rw [if_pos hc, if_pos hc]
      exact (ih hop g hs).filter e.admits
    · rw [if_neg hc, if_neg hc]
      exact hs.apart ((ih hop g hunit).filter e.admits)
  | graph name sub ih =>
    cases name with
    | term name => exact ih hop (.named name) hs
    | var v =>
      rw [flow, solve]
      refine hs.bind fun row => ?_
      rw [← flatMap_candidateGraphs v store.graphNames row]
      · refine Approx.overAll _ fun name => ?_
        cases row.extend v name with
        | ok m => exact ih hop (.named name) (approx_single _ m)
        | error c => exact .done
      · intro name hname
        cases hm : row.extend v name with
        | ok m => exact absurd hm (hname m)
        | error c => rfl
  | order keys sub ih =>
    rw [flow, solve]
    refine hs.apart ((ih hop g hunit).gather [] (fun _ => Nat.zero_le _) ?_)
    unfold Flow.sorted
    rw [sorted_keyed]
    exact .ofRows _
  | project vars sub ih =>
    rw [flow, solve, List.map_eq_flatMap]
    exact hs.apart ((ih hop g hunit).expand _)
  | distinct sub ih =>
    rw [flow, solve]
    have hd := (ih hop g hunit).distinct [] fun _ => Nat.zero_le _
    have hall : ((sub.solve store g [.empty]).filter fun b => !([] : List Binding).contains b) =
        sub.solve store g [.empty] := List.filter_eq_self.2 fun _ _ => rfl
    rw [hall] at hd
    exact hs.apart hd
  | slice offset limit sub ih =>
    rw [flow, solve]
    exact hs.apart ((ih hop g hunit).slice offset limit)

end TripleQuery
