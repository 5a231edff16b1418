import TripleQuery.Proofs.Flow.Op

/-!
# Flows under two limits

A flow under a limit on buffers compared with the one under a limit that is no stricter. `Cut m f g`
says that the first one does as the second does, unless it fails on the way because `m` rows are too
few for a buffer. Every operation on flows keeps to this, and so does every operator
(`Op.flow_cut`): whatever else is configured, a stricter limit can only cut short what it gives out.
-/

namespace TripleQuery

/-- The second limit allows whatever the first one does: it is no limit, or one that is as large. -/
def Relaxes (m m' : Nat) : Prop := m' = 0 ∨ 0 < m ∧ m ≤ m'

theorem Relaxes.exceeds {m m' size : Nat} (h : Relaxes m m') (hsize : exceeds size m = false) :
    exceeds size m' = false := by
  have hle : 0 < m → size ≤ m := Approx.le_of_not_exceeds hsize
  unfold TripleQuery.exceeds
  rw [Bool.and_eq_false_iff, decide_eq_false_iff_not, decide_eq_false_iff_not]
  rcases h with rfl | ⟨hpos, hm⟩
  · exact .inl (Nat.lt_irrefl 0)
  · exact .inr (Nat.not_lt.2 (Nat.le_trans (hle hpos) hm))

/-- The first flow does as the second one does, unless it fails on the way because `m` rows are too
few for a buffer. -/
inductive Cut (m : Nat) : Flow → Flow → Prop where
  | done : Cut m .done .done
  | row (b : Binding) {f g : Flow} (h : Cut m f g) : Cut m (.row b f) (.row b g)
  | cut (h : 0 < m) (g : Flow) : Cut m (.fail (.tooLarge (m + 1) m)) g

namespace Cut

variable {m m' : Nat} {f g f' g' : Flow}

theorem ofRows (m : Nat) (rows : List Binding) : Cut m (.ofRows rows) (.ofRows rows) := by
  induction rows with
  | nil => exact .done
  | cons b rows ih => exact .row b ih

/-- A flow that comes to its end under the first limit does so under the second. -/
theorem outcome_eq (h : Cut m f g) {rows : List Binding} (ho : f.outcome = .value rows) :
    g.outcome = .value rows := by
  have hsame : f.fault? = none → g = f := by
    clear ho
    induction h with
    | done => intro _; rfl
    | row b h ih => intro hf; rw [ih hf]
    | cut h g => intro hf; cases hf
  unfold Flow.outcome at ho
  cases hf : f.fault? with
  | some e =>
    rw [hf] at ho
    cases ho
  | none =>
    rw [hsame hf, Flow.outcome, hf]
    rw [hf] at ho
    exact ho

/-! ## One flow after another -/

theorem append (hf : Cut m f g) (hg : Cut m f' g') : Cut m (f ++ f') (g ++ g') := by
  induction hf with
  | done => exact hg
  | row b h ih => exact .row b ih
  | cut h g => exact .cut h _

theorem bind {k l : Binding → Flow} (h : Cut m f g) (hk : ∀ b, Cut m (k b) (l b)) :
    Cut m (f.bind k) (g.bind l) := by
  induction h with
  | done => exact .done
  | row b h ih => exact (hk b).append ih
  | cut h g => exact .cut h _

theorem expand (h : Cut m f g) (k : Binding → List Binding) : Cut m (f.expand k) (g.expand k) :=
  h.bind fun b => .ofRows m (k b)

theorem overAll {α : Type} {k l : α → Flow} (items : List α) (hk : ∀ a, Cut m (k a) (l a)) :
    Cut m (.overAll items k) (.overAll items l) := by
  induction items with
  | nil => exact .done
  | cons a items ih => exact (hk a).append ih

/-! ## Slices and probes -/

theorem slice (h : Cut m f g) (skip : Nat) (remaining : Option Nat) :
    Cut m (f.slice skip remaining) (g.slice skip remaining) := by
  by_cases hzero : remaining = some 0
  · subst hzero
    rw [Flow.slice_zero, Flow.slice_zero]
    exact .done
  induction h generalizing skip remaining with
  | done =>
    rw [Flow.slice_done]
    exact .done
  | cut h g =>
    rw [Flow.slice_fail hzero]
    exact .cut h _
  | @row b f g h ih =>
    match skip, remaining with
    | skip + 1, remaining =>
      rw [Flow.slice_succ_row hzero, Flow.slice_succ_row hzero]
      exact ih skip remaining hzero
    | 0, none => exact .row b (ih 0 none hzero)
    | 0, some 1 =>
      refine .row b ?_
      rw [Flow.slice_zero, Flow.slice_zero]
      exact .done
    | 0, some (n + 2) => exact .row b (ih 0 (some (n + 1)) (nomatch ·))

theorem probe (h : Cut m f g) (condition : Option Expr) (left : Binding) (matched : Bool) :
    Cut m (f.probe condition left matched) (g.probe condition left matched) := by
  induction h generalizing matched with
  | done =>
    cases matched with
    | true => exact .done
    | false => exact .row left .done
  | cut h g => exact .cut h _
  | row b h ih =>
    rw [Flow.probe, Flow.probe]
    split
    · exact .row b (ih true)
    · exact ih matched

/-! ## Buffers -/

/-- A buffer that grows past the limit when one more row comes was full. -/
theorem of_exceeds {size : Nat} (hsize : 0 < m → size ≤ m) (h : exceeds (size + 1) m = true)
    (g : Flow) : Cut m (.fail (.tooLarge (size + 1) m)) g := by
  have hfull : Approx m (.fail (.tooLarge (size + 1) m)) [] := Approx.fail_of_exceeds hsize h
  cases hfull with
  | fail hpos => exact .cut hpos g

variable (hm : Relaxes m m')

include hm

theorem distinct (h : Cut m f g) (seen : List Binding) (hseen : 0 < m → seen.length ≤ m) :
    Cut m (f.distinct m seen) (g.distinct m' seen) := by
  induction h generalizing seen with
  | done => exact .done
  | cut h g => exact .cut h _
  | row b h ih =>
    rw [Flow.distinct, Flow.distinct]
    split
    · exact ih seen hseen
    · cases he : exceeds (seen.length + 1) m with
      | true => exact of_exceeds hseen he _
      | false =>
        rw [hm.exceeds he]
        exact .row b (ih (b :: seen) (Approx.le_of_not_exceeds he))

theorem limit (h : Cut m f g) (size : Nat) (hsize : 0 < m → size ≤ m) :
    Cut m (f.limit m size) (g.limit m' size) := by
  induction h generalizing size with
  | done => exact .done
  | cut h g => exact .cut h _
  | row b h ih =>
    rw [Flow.limit, Flow.limit]
    cases he : exceeds (size + 1) m with
    | true => exact of_exceeds hsize he _
    | false =>
      rw [hm.exceeds he]
      exact .row b (ih (size + 1) (Approx.le_of_not_exceeds he))

theorem gather {k l : List Binding → Flow} (hk : ∀ rows, Cut m (k rows) (l rows)) (h : Cut m f g)
    (seen : List Binding) (hseen : 0 < m → seen.length ≤ m) :
    Cut m (f.gather m k seen) (g.gather m' l seen) := by
  induction h generalizing seen with
  | done => exact hk seen
  | cut h g => exact .cut h _
  | row b h ih =>
    rw [Flow.gather, Flow.gather]
    cases he : exceeds (seen.length + 1) m with
    | true => exact of_exceeds hseen he _
    | false =>
      rw [hm.exceeds he]
      refine ih (seen ++ [b]) ?_
      rw [List.length_append]
      exact Approx.le_of_not_exceeds he

theorem join (kind : JoinKind) (condition : Option Expr) (hl : Cut m f f') (hr : Cut m g g') :
    Cut m (f.join m kind condition g) (f'.join m' kind condition g') := by
  refine hr.gather hm (fun rows => ?_) [] fun _ => Nat.zero_le m
  unfold Flow.joinWith
  split
  · exact .done
  · exact hl.expand _

/-! ## Seeds -/

variable {seed seed' : Option Flow}

omit hm in
theorem ofSeed (hs : Option.Rel (Cut m) seed seed') : Cut m (.ofSeed seed) (.ofSeed seed') := by
  cases hs with
  | none => exact .row .empty .done
  | some h => exact h

theorem apart (hs : Option.Rel (Cut m) seed seed') (h : Cut m f g) :
    Cut m (.apart m seed f) (.apart m' seed' g) := by
  cases hs with
  | none => exact h
  | some hs => exact hs.join hm .inner none h

theorem shared (hs : Option.Rel (Cut m) seed seed') :
    Option.Rel (Cut m) (Flow.shared m seed) (Flow.shared m' seed') := by
  cases hs with
  | none => exact .none
  | some hs => exact .some (hs.limit hm 0 fun _ => Nat.zero_le m)

end Cut

/-! ## Operators -/

theorem Cut.scanAll {m : Nat} {f g : Flow} (h : Cut m f g) (src : Source) (slot : GraphSlot)
    (patterns : List TriplePattern) :
    Cut m (src.scanAll slot patterns f) (src.scanAll slot patterns g) := by
  induction patterns generalizing f g with
  | nil => exact h
  | cons p patterns ih => exact ih (h.expand _)

/-- **Limits cut short.** Under two limits, the second of them no stricter, an operator gives out
the same, unless the first one makes it fail on the way. -/
theorem Op.flow_cut (src : Source) {cfg cfg' : Config} (hjoin : cfg'.leftJoin = cfg.leftJoin)
    (hm : Relaxes cfg.maxRows.toNat cfg'.maxRows.toNat) (op : Op) (g : ActiveGraph)
    {seed seed' : Option Flow} (hs : Option.Rel (Cut cfg.maxRows.toNat) seed seed') :
    Cut cfg.maxRows.toNat (op.flow src cfg g seed) (op.flow src cfg' g seed') := by
  have hrow (row : Binding) :
      Option.Rel (Cut cfg.maxRows.toNat) (some (.single row)) (some (.single row)) :=
    .some (.row row .done)
  induction op generalizing g seed seed' with
  | bgp patterns => exact (Cut.ofSeed hs).scanAll src _ patterns
  | quadPattern name patterns => exact (Cut.ofSeed hs).scanAll src _ patterns
  | datasetNames name => exact (Cut.ofSeed hs).expand _
  | table t =>
    rw [flow, flow]
    split
    · exact .done
    · exact (Cut.ofSeed hs).expand _
  | extension ext => exact .done
  | join l r ihl ihr => exact ihr g (.some (ihl g hs))
  | leftJoin l r condition ihl ihr =>
    rw [flow, flow, hjoin]
    refine .apart hm hs ?_
    split
    · exact (ihl g .none).bind fun row => (ihr g (hrow row)).probe condition row false
    · exact (ihl g .none).join hm .left condition (ihr g .none)
  | union l r ihl ihr => exact (ihl g (Cut.shared hm hs)).append (ihr g (Cut.shared hm hs))
  | filter e sub ih =>
    rw [flow, flow]
    split
    · exact (ih g hs).expand _
    · exact .apart hm hs ((ih g .none).expand _)
  | graph name sub ih =>
    cases name with
    | term name => exact ih (.named name) hs
    | var v =>
      rw [flow, flow]
      refine (Cut.ofSeed hs).bind fun row => .overAll _ fun name => ?_
      cases row.extend v name with
      | ok m => exact ih (.named name) (hrow m)
      | error c => exact .done
  | order keys sub ih =>
    exact .apart hm hs ((ih g .none).gather hm (fun _ => .ofRows _ _) [] fun _ => Nat.zero_le _)
  | project vars sub ih => exact .apart hm hs ((ih g .none).expand _)
  | distinct sub ih => exact .apart hm hs ((ih g .none).distinct hm [] fun _ => Nat.zero_le _)
  | slice offset limit sub ih => exact .apart hm hs ((ih g .none).slice offset limit)

end TripleQuery
