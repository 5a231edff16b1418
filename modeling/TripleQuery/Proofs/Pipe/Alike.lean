import TripleQuery.Proofs.Pipe.Ledger

/-!
# Pipelines that are alike

Two runs are compared by pipelines that agree in all but what the comparison allows for: a scan of
the second may come to a failure where that of the first does not, and around a stage of the second
there may be a tracker whose events do not count. Alike pipelines are kept or not kept together
(`Pipe.Alike.kept`), and are alike once they are closed (`Pipe.Alike.close`).
-/

namespace TripleQuery

/-! ## Comparisons -/

/-- What two runs are compared by. -/
structure Comparison where
  /-- The events that count. -/
  counts : Event → Bool
  /-- The failure that the second run may meet where the first meets none. -/
  fault : Option DatasetError
  counts_released : counts .released = true

namespace Comparison

/-- Whether the calls that reach a tracker of the name do not count. -/
def Hides (c : Comparison) (id : String) : Prop :=
  c.counts (.pulled id) = false ∧ c.counts (.closed id) = false

/-- The comparison by everything, where the second run may meet a failure. -/
def upTo (e : DatasetError) : Comparison := ⟨fun _ => true, some e, rfl⟩

/-- The comparison by everything but the calls that reach trackers. -/
def untracked : Comparison where
  counts
    | .pulled _ | .closed _ => false
    | _ => true
  fault := none
  counts_released := rfl

/-- The events that count. -/
def view (c : Comparison) (events : List Event) : List Event := events.filter c.counts

variable {c : Comparison}

@[simp] theorem view_append (xs ys : List Event) : c.view (xs ++ ys) = c.view xs ++ c.view ys :=
  List.filter_append ..

theorem view_append_congr {xs xs' ys ys' : List Event} (hx : c.view xs = c.view xs')
    (hy : c.view ys = c.view ys') : c.view (xs ++ ys) = c.view (xs' ++ ys') := by
  rw [view_append, view_append, hx, hy]

theorem view_cons_hidden {e : Event} (h : c.counts e = false) (events : List Event) :
    c.view (e :: events) = c.view events :=
  List.filter_cons_of_neg (by rw [h]; exact Bool.false_ne_true)

theorem view_cons (e : Event) {xs ys : List Event} (h : c.view xs = c.view ys) :
    c.view (e :: xs) = c.view (e :: ys) := by
  unfold view at h ⊢
  rw [List.filter_cons, List.filter_cons, h]

theorem view_upTo (e : DatasetError) (events : List Event) : (upTo e).view events = events :=
  List.filter_eq_self.2 fun _ _ => rfl

theorem counts_of_release {e : Event} (h : e.isRelease = true) : c.counts e = true := by
  cases e with
  | released => exact c.counts_released
  | _ => cases h

/-- Releases always count. -/
theorem releases_view (events : List Event) : releases (c.view events) = releases events := by
  unfold releases view
  rw [List.countP_filter]
  refine List.countP_congr fun e _ => ?_
  rw [Bool.and_eq_true, and_iff_left_iff_imp]
  exact counts_of_release

theorem any_isRelease {xs ys : List Event} (h : c.view xs = c.view ys) :
    xs.any Event.isRelease = ys.any Event.isRelease := by
  rw [Bool.eq_iff_iff, ← releases_pos_iff, ← releases_pos_iff, ← c.releases_view xs, h,
    c.releases_view]

end Comparison

/-! ## Alike items and pipelines -/

section Alike

variable (c : Comparison)

/-- The items of two scans are the same until the second comes to the failure. -/
inductive ItemsAlike : List CursorItem → List CursorItem → Prop where
  | same (items : List CursorItem) : ItemsAlike items items
  | fault {e : DatasetError} (he : c.fault = some e) {items : List CursorItem}
    (h : items.head? ≠ some (.fault e)) (rest : List CursorItem) :
    ItemsAlike items (.fault e :: rest)
  | cons (item : CursorItem) {items items' : List CursorItem} (h : ItemsAlike items items') :
    ItemsAlike (item :: items) (item :: items')

/-- Two scans are at the same point. -/
inductive ScanState.Alike : ScanState → ScanState → Prop where
  | idle : Alike .idle .idle
  | asking : Alike .asking .asking
  | reading (row : Binding) {items items' : List CursorItem} (h : ItemsAlike c items items') :
    Alike (.reading row items) (.reading row items')

namespace Pipe

/-- Two pipelines agree in all but the items of scans and trackers that do not count. -/
inductive Alike : Pipe → Pipe → Prop where
  | bindings (phase : Phase) (rows : List Binding) :
    Alike (.bindings phase rows) (.bindings phase rows)
  | script (phase : Phase) (items : List ScriptItem) :
    Alike (.script phase items) (.script phase items)
  | replay (phase : Phase) (position : Nat) :
    Alike (.replay phase position) (.replay phase position)
  | concatEnd (phase : Phase) : Alike (.concatEnd phase) (.concatEnd phase)
  | tracked (id : String) (calling : Bool) {p p' : Pipe} (h : Alike p p') :
    Alike (.tracked id calling p) (.tracked id calling p')
  /-- A tracker that does not count. -/
  | watched {id : String} (hid : c.Hides id) (calling : Bool) {p p' : Pipe} (h : Alike p p') :
    Alike p (.tracked id calling p')
  | share (shared : SharedRows) {input input' body body' : Pipe} (hi : Alike input input')
    (hb : Alike body body') : Alike (.share shared input body) (.share shared input' body')
  | scan (phase : Phase) (pattern : TriplePattern) (slot : GraphSlot) {at' at'' : ScanState}
    (hat : at'.Alike c at'') {p p' : Pipe} (h : Alike p p') :
    Alike (.scan phase pattern slot at' p) (.scan phase pattern slot at'' p')
  | filter (phase : Phase) (e : Expr) {p p' : Pipe} (h : Alike p p') :
    Alike (.filter phase e p) (.filter phase e p')
  | join (phase : Phase) (kind : JoinKind) (condition : Option Expr) (at' : JoinState)
    {l l' r r' : Pipe} (hl : Alike l l') (hr : Alike r r') :
    Alike (.join phase kind condition at' l r) (.join phase kind condition at' l' r')
  | optional (phase : Phase) (sub : Op) (condition : Option Expr) (g : ActiveGraph) {p p' : Pipe}
    (h : Alike p p') :
    Alike (.optional phase sub condition g p) (.optional phase sub condition g p')
  | probing (sub : Op) (condition : Option Expr) (g : ActiveGraph) (row : Binding) (matched : Bool)
    {q q' p p' : Pipe} (hq : Alike q q') (h : Alike p p') :
    Alike (.probing sub condition g row matched q p) (.probing sub condition g row matched q' p')
  | graphs (phase : Phase) (var : Variable) (sub : Op) (known : Option (List Term))
    (at' : GraphsState) {p p' : Pipe} (h : Alike p p') :
    Alike (.graphs phase var sub known at' p) (.graphs phase var sub known at' p')
  | within (var : Variable) (sub : Op) (known : Option (List Term)) (row : Binding)
    (candidates : List Term) {q q' p p' : Pipe} (hq : Alike q q') (h : Alike p p') :
    Alike (.within var sub known row candidates q p) (.within var sub known row candidates q' p')
  | names (phase : Phase) (name : TermPattern) (known : Option (List Term))
    (pending : List Binding) {p p' : Pipe} (h : Alike p p') :
    Alike (.names phase name known pending p) (.names phase name known pending p')
  | table (phase : Phase) (rows : List Binding) (at' : TableState) {p p' : Pipe}
    (h : Alike p p') : Alike (.table phase rows at' p) (.table phase rows at' p')
  | order (phase : Phase) (keys : List SortKey) (at' : OrderState) {p p' : Pipe}
    (h : Alike p p') : Alike (.order phase keys at' p) (.order phase keys at' p')
  | project (phase : Phase) (vars : List Variable) {p p' : Pipe} (h : Alike p p') :
    Alike (.project phase vars p) (.project phase vars p')
  | distinct (phase : Phase) (seen : List Binding) (limit : Nat) {p p' : Pipe}
    (h : Alike p p') : Alike (.distinct phase seen limit p) (.distinct phase seen limit p')
  | slice (phase : Phase) (skip : Nat) (remaining : Option Nat) {p p' : Pipe} (h : Alike p p') :
    Alike (.slice phase skip remaining p) (.slice phase skip remaining p')
  | concat (phase : Phase) (dry : Bool) {l l' r r' : Pipe} (hl : Alike l l') (hr : Alike r r') :
    Alike (.concat phase dry l r) (.concat phase dry l' r')

end Pipe

theorem ScanState.Alike.refl (at' : ScanState) : at'.Alike c at' := by
  cases at' with
  | idle => exact .idle
  | asking => exact .asking
  | reading row items => exact .reading row (.same items)

namespace Pipe.Alike

theorem refl (p : Pipe) : p.Alike c p := by
  induction p with
  | bindings phase rows => exact .bindings phase rows
  | script phase items => exact .script phase items
  | replay phase position => exact .replay phase position
  | concatEnd phase => exact .concatEnd phase
  | tracked id calling _ ih => exact .tracked id calling ih
  | share shared _ _ ihi ihb => exact .share shared ihi ihb
  | scan phase pattern slot at' _ ih => exact .scan phase pattern slot (.refl c at') ih
  | filter phase e _ ih => exact .filter phase e ih
  | join phase kind condition at' _ _ ihl ihr => exact .join phase kind condition at' ihl ihr
  | optional phase sub condition g _ ih => exact .optional phase sub condition g ih
  | probing sub condition g row matched _ _ ihq ih =>
    exact .probing sub condition g row matched ihq ih
  | graphs phase var sub known at' _ ih => exact .graphs phase var sub known at' ih
  | within var sub known row candidates _ _ ihq ih =>
    exact .within var sub known row candidates ihq ih
  | names phase name known pending _ ih => exact .names phase name known pending ih
  | table phase rows at' _ ih => exact .table phase rows at' ih
  | order phase keys at' _ ih => exact .order phase keys at' ih
  | project phase vars _ ih => exact .project phase vars ih
  | distinct phase seen limit _ ih => exact .distinct phase seen limit ih
  | slice phase skip remaining _ ih => exact .slice phase skip remaining ih
  | concat phase dry _ _ ihl ihr => exact .concat phase dry ihl ihr

end Pipe.Alike

end Alike

theorem ScanState.Alike.asks {c : Comparison} {state : RunState} {at' at'' : ScanState}
    (h : at'.Alike c at'') (ha : at''.Asks state) : at'.Asks state := by
  cases h with
  | idle | asking => exact ha
  | reading => cases ha

/-! ## Books -/

section Books

variable {c : Comparison} {p p' : Pipe}

theorem ScanState.Alike.idle_iff {at' at'' : ScanState} (h : at'.Alike c at'') :
    at' = .idle ↔ at'' = .idle := by
  cases h with
  | idle | asking => exact .rfl
  | reading => exact ⟨nofun, nofun⟩

namespace Pipe.Alike

theorem readers (h : p.Alike c p') : p.readers = p'.readers := by
  induction h with
  | bindings | script | replay | concatEnd => rfl
  | tracked _ _ _ ih | watched _ _ _ ih | share _ _ _ ih | scan _ _ _ _ _ ih | filter _ _ _ ih
  | optional _ _ _ _ _ ih | graphs _ _ _ _ _ _ ih | names _ _ _ _ _ ih | table _ _ _ _ ih
  | order _ _ _ _ ih | project _ _ _ ih | distinct _ _ _ _ ih | slice _ _ _ _ ih => exact ih
  | join _ _ _ _ _ _ ihl ihr | probing _ _ _ _ _ _ _ ihl ihr | within _ _ _ _ _ _ _ ihl ihr
  | concat _ _ _ _ ihl ihr => exact congrArg₂ (· + ·) ihl ihr

theorem released (h : p.Alike c p') : p.Released ↔ p'.Released := by
  induction h with
  | bindings | script | replay | concatEnd | probing | within => exact .rfl
  | tracked _ _ _ ih | watched _ _ _ ih => exact ih
  | share _ _ _ ihi ihb => exact and_congr .rfl (and_congr ihi ihb)
  | scan _ _ _ hat _ ih => exact and_congr .rfl (and_congr hat.idle_iff ih)
  | filter _ _ _ ih | optional _ _ _ _ _ ih | graphs _ _ _ _ _ _ ih | names _ _ _ _ _ ih
  | table _ _ _ _ ih | order _ _ _ _ ih | project _ _ _ ih | distinct _ _ _ _ ih
  | slice _ _ _ _ ih => exact and_congr .rfl ih
  | join _ _ _ _ _ _ ihl ihr | concat _ _ _ _ ihl ihr => exact and_congr .rfl (and_congr ihl ihr)

theorem shut {strict : Prop} (h : p.Alike c p') : p.Shut strict ↔ p'.Shut strict :=
  ⟨fun hp => ⟨h.readers ▸ hp.readers, fun hs => h.released.1 (hp.released hs)⟩,
    fun hp => ⟨h.readers ▸ hp.readers, fun hs => h.released.2 (hp.released hs)⟩⟩

theorem kept {pending : Op → Prop} {strict : Prop} (h : p.Alike c p') :
    p.Kept pending strict ↔ p'.Kept pending strict := by
  induction h with
  | bindings | script | replay | concatEnd => exact .rfl
  | tracked _ _ _ ih | watched _ _ _ ih | scan _ _ _ _ _ ih | filter _ _ _ ih
  | names _ _ _ _ _ ih | table _ _ _ _ ih | order _ _ _ _ ih | project _ _ _ ih
  | distinct _ _ _ _ ih | slice _ _ _ _ ih => exact ih
  | share shared hi hb ihi ihb =>
    have hcount := hb.readers
    refine and_congr (and_congr ?_ (imp_congr .rfl hi.shut)) (and_congr ihi ihb)
    rw [hcount]
  | optional _ _ _ _ _ ih | graphs _ _ _ _ _ _ ih => exact and_congr .rfl ih
  | join _ _ _ _ _ _ ihl ihr | concat _ _ _ _ ihl ihr => exact and_congr ihl ihr
  | probing _ _ _ _ _ _ _ ihq ih | within _ _ _ _ _ _ _ ihq ih =>
    exact and_congr .rfl (and_congr ihq ih)

end Pipe.Alike

end Books

/-! ## Closing -/

section Closing

variable {c : Comparison}

/-- What a scope makes of events goes by those that count. -/
theorem settle_view (shared : SharedRows) (input : Pipe) (close : Unit → Pipe × List Event)
    (events : List Event) :
    (shared.settle input close events).1 = (shared.settle input close (c.view events)).1 ∧
      (shared.settle input close events).2.1 =
        (shared.settle input close (c.view events)).2.1 ∧
      c.view (shared.settle input close events).2.2 =
        c.view (shared.settle input close (c.view events)).2.2 := by
  induction events generalizing shared input with
  | nil => exact ⟨rfl, rfl, rfl⟩
  | cons e rest ih =>
    cases he : e.isRelease with
    | true =>
      have hview : c.view (e :: rest) = e :: c.view rest :=
        List.filter_cons_of_pos (c.counts_of_release he)
      rw [hview, SharedRows.settle, SharedRows.settle, if_pos he, if_pos he]
      split
      · obtain ⟨hs, hi, hv⟩ := ih { shared with openReaders := 0, rows := #[] } (close ()).1
        exact ⟨hs, hi, c.view_append_congr rfl hv⟩
      · exact ih _ input
    | false =>
      obtain ⟨hs, hi, hv⟩ := ih shared input
      have hstep (es : List Event) : shared.settle input close (e :: es) =
          ((shared.settle input close es).1, (shared.settle input close es).2.1,
            e :: (shared.settle input close es).2.2) := by
        rw [SharedRows.settle, if_neg (by rw [he]; exact Bool.false_ne_true)]
      cases hc : c.counts e with
      | true =>
        have hview : c.view (e :: rest) = e :: c.view rest := List.filter_cons_of_pos hc
        rw [hview, hstep, hstep]
        exact ⟨hs, hi, c.view_cons e hv⟩
      | false =>
        rw [c.view_cons_hidden hc, hstep]
        exact ⟨hs, hi, (c.view_cons_hidden hc _).trans hv⟩

/-- What scopes with alike inputs make of events that are the same as far as they count. -/
theorem settle_alike (shared : SharedRows) {input input' : Pipe} (hi : input.Alike c input')
    (close close' : Unit → Pipe × List Event) (hc : (close ()).1.Alike c (close' ()).1)
    (hv : c.view (close ()).2 = c.view (close' ()).2) {events events' : List Event}
    (h : c.view events = c.view events') :
    (shared.settle input close events).1 = (shared.settle input' close' events').1 ∧
      (shared.settle input close events).2.1.Alike c (shared.settle input' close' events').2.1 ∧
      c.view (shared.settle input close events).2.2 =
        c.view (shared.settle input' close' events').2.2 := by
  obtain ⟨hs, hi', hm⟩ := settle_view (c := c) shared input close events
  obtain ⟨hs', hi'', hm'⟩ := settle_view (c := c) shared input' close' events'
  rw [hs, hs', hi', hi'', hm, hm', h]
  -- from here on both scopes have the same events
  generalize c.view events' = same
  clear h hs hs' hi' hi'' hm hm'
  induction same generalizing shared input input' with
  | nil => exact ⟨rfl, hi, rfl⟩
  | cons e rest ih =>
    rw [SharedRows.settle, SharedRows.settle]
    split
    · split
      · obtain ⟨hs, hi, hm⟩ := ih { shared with openReaders := 0, rows := #[] } hc
        exact ⟨hs, hi, c.view_append_congr hv hm⟩
      · exact ih _ hi
    · obtain ⟨hs, hi, hm⟩ := ih shared hi
      exact ⟨hs, hi, c.view_cons e hm⟩

/-- **Closed together.** Alike pipelines are alike once they are closed, and closing them sets the
same off, as far as it counts. -/
theorem Pipe.Alike.close {p p' : Pipe} (h : p.Alike c p') :
    p.close.1.Alike c p'.close.1 ∧ c.view p.close.2 = c.view p'.close.2 := by
  induction h with
  | bindings => exact ⟨.bindings .., rfl⟩
  | script => exact ⟨.script .., rfl⟩
  | replay => exact ⟨.replay .., rfl⟩
  | concatEnd => exact ⟨.concatEnd .., rfl⟩
  | tracked id _ _ ih => exact ⟨.tracked id false ih.1, c.view_cons _ ih.2⟩
  | watched hid _ _ ih =>
    exact ⟨.watched hid false ih.1, ih.2.trans (c.view_cons_hidden hid.2 _).symm⟩
  | share shared hi hb ihi ihb =>
    obtain ⟨hs, hc, hm⟩ := settle_alike shared hi (fun _ => _) (fun _ => _) ihi.1 ihi.2 ihb.2
    refine ⟨?_, hm⟩
    rw [Pipe.close, Pipe.close]
    dsimp only
    rw [hs]
    exact .share _ hc ihb.1
  | scan _ pattern slot _ _ ih => exact ⟨.scan _ pattern slot .idle ih.1, ih.2⟩
  | filter _ e _ ih => exact ⟨.filter _ e ih.1, ih.2⟩
  | optional _ sub condition g _ ih => exact ⟨.optional _ sub condition g ih.1, ih.2⟩
  | graphs _ var sub known _ _ ih => exact ⟨.graphs _ var sub known .idle ih.1, ih.2⟩
  | names _ name known _ _ ih => exact ⟨.names _ name known [] ih.1, ih.2⟩
  | table _ rows _ _ ih => exact ⟨.table _ rows .idle ih.1, ih.2⟩
  | order _ keys _ _ ih => exact ⟨.order _ keys _ ih.1, ih.2⟩
  | project _ vars _ ih => exact ⟨.project _ vars ih.1, ih.2⟩
  | distinct _ _ limit _ ih => exact ⟨.distinct _ [] limit ih.1, ih.2⟩
  | slice _ skip remaining _ ih => exact ⟨.slice _ skip remaining ih.1, ih.2⟩
  | join _ kind condition _ _ _ ihl ihr =>
    exact ⟨.join _ kind condition _ ihl.1 ihr.1, c.view_append_congr ihl.2 ihr.2⟩
  | concat _ dry _ _ ihl ihr =>
    exact ⟨.concat _ dry ihl.1 ihr.1, c.view_append_congr ihl.2 ihr.2⟩
  | probing sub condition g _ _ _ _ ihq ih =>
    exact ⟨.optional _ sub condition g ih.1, c.view_append_congr ih.2 ihq.2⟩
  | within var sub known _ _ _ _ ihq ih =>
    exact ⟨.graphs _ var sub known .idle ih.1, c.view_append_congr ih.2 ihq.2⟩

end Closing

end TripleQuery
