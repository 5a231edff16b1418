import TripleQuery.Proofs.Pipe.Runs

/-!
# Runs of shared inputs

A reader gives out what the input of its scope gives out, from its position on (`Runs.replay`), and
a scope comes to what its body comes to, if the body is told the input of the scope
(`Runs.share`). The rows that a scope has read and the rest of its input make up the input at all
times; that is the invariant `Holds`. While its body waits the scope reads on, and if its input
waits for a scope further out, the scope waits with it.
-/

namespace TripleQuery

/-! ## Parts of a flow -/

namespace Flow

theorem drop_of_lt {f : Flow} {n : Nat} (h : n < f.rows.length) :
    f.drop n = row f.rows[n] (f.drop (n + 1)) := by
  induction f generalizing n with
  | done => exact absurd h (Nat.not_lt_zero n)
  | fail e => exact absurd h (Nat.not_lt_zero n)
  | row b rest ih =>
    cases n with
    | zero => cases rest <;> rfl
    | succ n => exact ih (Nat.lt_of_succ_lt_succ h)

theorem drop_length (f : Flow) : f.drop f.rows.length = f.fault?.elim done fail := by
  induction f with
  | done => rfl
  | fail e => rfl
  | row b rest ih => exact ih

end Flow

/-- Where no scope can be, nothing has to be shown. -/
theorem Runs.unreachable {ctx : Context} {all : Option Flow} {known : Nat}
    (h : ¬∃ scope, InScope all known scope) (p : Pipe) (f : Flow) : Runs ctx all known p f := by
  have hnone {signal : Signal} : Takes ctx all known p signal p :=
    fun scope _ hscope _ => absurd ⟨scope, hscope⟩ h
  induction f with
  | done => exact .done hnone
  | fail e => exact .fail hnone
  | row b rest ih => exact .yield hnone ih

theorem Runs.of_reachable {ctx : Context} {all : Option Flow} {known : Nat} {p : Pipe} {f : Flow}
    (h : (∃ scope, InScope all known scope) → Runs ctx all known p f) : Runs ctx all known p f := by
  by_cases hscope : ∃ scope, InScope all known scope
  · exact h hscope
  · exact .unreachable hscope p f

/-- A pipeline whose step is that of another one after some events runs like it. -/
theorem Runs.behind {ctx : Context} {all : Option Flow} {known : Nat} {p q : Pipe} {f : Flow}
    (h : Runs ctx all known q f) (hp : ∀ scope state, InScope all known scope →
      state.cancelled = false → ∃ events state', state'.cancelled = false ∧
        p.step ctx scope state = (q.step ctx scope state').after events) :
    Runs ctx all known p f := by
  have htakes {signal : Signal} {next : Pipe} (h : Takes ctx all known q signal next) :
      Takes ctx all known p signal next := by
    intro scope state hscope hs
    obtain ⟨events, state', hs', hstep⟩ := hp scope state hscope hs
    rw [hstep]
    exact (h scope state' hscope hs').after events
  cases h with
  | yield h hq => exact .yield (htakes h) hq
  | skip h hq => exact .skip (htakes h) hq
  | done h => exact .done (htakes h)
  | fail h => exact .fail (htakes h)
  | wait hall hknown hend h hw hq => exact .wait hall hknown hend (htakes h) hw hq
  | doom hall hknown hend h hw => exact .doom hall hknown hend (htakes h) hw

/-! ## Readers -/

section Replay

variable {ctx : Context} {input : Flow} {known position : Nat}

theorem step_replay_open {phase : Phase} (h : phase.isDone = false) {shared : SharedRows}
    {state : RunState} (hclean : shared.fault = none) :
    (Pipe.replay phase position).step ctx (some shared) state =
      match shared.rows[position]? with
      | some row => .quiet (.yield row) (.replay .active (position + 1)) state
      | none =>
        if shared.inputDone then .quiet .done (.replay .exhausted position) state
        else .quiet .await (.replay .active position) state := by
  rw [Pipe.step_replay h, replayStep]
  cases phase with
  | created => simp only [hclean]; rfl
  | active => simp only [hclean]; rfl
  | exhausted => cases h
  | closed => cases h

/-- A reader at a position after it has been answered. -/
def Pipe.replayed (position : Nat) : Option Binding → Pipe
  | some _ => .replay .active (position + 1)
  | none => .replay .exhausted position

/-- A reader that is not ahead of its scope is answered at once. -/
theorem Pipe.step_share_behind {phase : Phase} {shared : SharedRows} {input : Pipe}
    {scope : Option SharedRows} {state : RunState} {row : Option Binding}
    (h : phase.isDone = false) (hclean : shared.fault = none) (hrow : shared.rows[position]? = row)
    (hended : row = none → shared.inputDone = true) :
    (share shared input (.replay phase position)).step ctx scope state =
      .quiet (row.elim .done .yield) (.share shared input (.replayed position row)) state := by
  rw [step_share, step_replay_open h hclean, clear_of_clean hclean, hrow]
  cases row with
  | some b => rfl
  | none =>
    rw [hended rfl]
    rfl

/-- A reader reports the failure that its scope has noted. -/
theorem Pipe.step_share_fault {phase : Phase} {shared : SharedRows} {input : Pipe}
    {scope : Option SharedRows} {state : RunState} {e : ExecError} (h : phase.isDone = false)
    (hfault : shared.fault = some e) :
    (share shared input (.replay phase position)).step ctx scope state =
      .quiet (.fail e) (.share shared.clear input (.replay phase.activate position)) state := by
  rw [step_share, Pipe.step_replay h, replayStep]
  simp only [hfault]
  rfl

/-- A reader that is ahead of its scope makes it take a step of its input. -/
theorem Pipe.step_share_ahead {phase : Phase} {shared : SharedRows} {input : Pipe}
    {scope : Option SharedRows} {state : RunState} (h : phase.isDone = false)
    (hclean : shared.fault = none) (hahead : shared.rows[position]? = none)
    (hdone : shared.inputDone = false) :
    (share shared input (.replay phase position)).step ctx scope state =
      shareRead shared (.replay .active position) [] (input.step ctx scope state) := by
  rw [step_share, step_replay_open h hclean, hahead, hdone, clear_of_clean hclean]
  rfl

/-- A reader that is ahead of its scope waits. -/
theorem waits_replay (h : known ≤ position) : Waits ctx known (.replay .active position) where
  open' := Nat.one_pos
  blocked shared state hsize hdone hclean _ := by
    have hnone : shared.rows[position]? = none := Array.getElem?_eq_none (by omega)
    rw [step_replay_open rfl hclean, hnone, hdone]
    rfl
  reports e := by
    refine ⟨.replay .active position, .inl fun shared state hfault hs => ?_⟩
    rw [Pipe.step_replay rfl, replayStep]
    simp only [hfault]
    exact doesQuietly_quiet hs

/-- The row that a scope has for a reader. -/
theorem Serves.getElem? {shared : SharedRows} (h : Serves input known shared) :
    shared.rows[position]? = if position < known then input.rows[position]? else none := by
  rw [← Array.getElem?_toList, h.rows, List.getElem?_take]

/-- A reader takes over a row that its scope has. -/
theorem Runs.replay_row {phase : Phase} (h : phase.isDone = false)
    (hnext : Gives ctx (some input) (.replay .active (position + 1)) (input.drop (position + 1)))
    (hrow : position < input.rows.length) (hknown : position < known) :
    Runs ctx (some input) known (.replay phase position) (input.drop position) := by
  rw [Flow.drop_of_lt hrow]
  refine .yield (fun scope state hscope hs => ?_) (hnext known)
  obtain ⟨shared, rfl, hserves⟩ := hscope
  rw [step_replay_open h hserves.clean, hserves.getElem?, if_pos hknown,
    List.getElem?_eq_getElem hrow]
  exact does_quiet hs

/-- A reader has ended if its scope has seen the end. -/
theorem Runs.replay_end {phase : Phase} (h : phase.isDone = false)
    (hknown : input.rows.length < known) :
    Runs ctx (some input) known (.replay phase input.rows.length)
      (input.drop input.rows.length) := by
  rw [Flow.drop_length]
  cases hfault : input.fault? with
  | some e =>
    -- a scope never sees the end of an input that fails
    refine .fail (q := .replay .active input.rows.length) fun scope state hscope _ => ?_
    obtain ⟨shared, rfl, hserves⟩ := hscope
    rw [hserves.ended hknown] at hfault
    cases hfault
  | none =>
    refine .done (q := .replay .exhausted input.rows.length) fun scope state hscope hs => ?_
    obtain ⟨shared, rfl, hserves⟩ := hscope
    rw [step_replay_open h hserves.clean, hserves.getElem?, if_pos hknown,
      List.getElem?_eq_none (Nat.le_refl _), hserves.done, if_pos (decide_eq_true hknown)]
    exact does_quiet hs

theorem takes_replay_await {phase : Phase} (h : phase.isDone = false)
    (hpos : position ≤ input.rows.length) (hknown : known ≤ position) :
    Takes ctx (some input) known (.replay phase position) .await (.replay .active position) := by
  intro scope state hscope hs
  obtain ⟨shared, rfl, hserves⟩ := hscope
  rw [step_replay_open h hserves.clean, hserves.getElem?, if_neg (Nat.not_lt.2 hknown),
    hserves.done, decide_eq_false (by omega)]
  exact does_quiet hs

/-- A reader that is ahead of its scope waits until the scope has caught up with it. -/
theorem Runs.replay_waiting (hpos : position ≤ input.rows.length)
    (hready : ∀ phase : Phase, phase.isDone = false → ∀ known, position < known →
      Runs ctx (some input) known (.replay phase position) (input.drop position))
    {phase : Phase} (h : phase.isDone = false) :
    Gives ctx (some input) (.replay phase position) (input.drop position) := by
  intro known
  by_cases hknown : position < known
  · exact hready phase h known hknown
  -- the induction is on what the scope has still to read before it gets to the reader
  obtain ⟨ahead, hahead⟩ := Nat.exists_eq_add_of_le (Nat.le_of_not_lt hknown)
  induction ahead generalizing known phase with
  | zero =>
    have hawait : Takes ctx (some input) known (.replay phase position) .await
        (.replay .active position) := takes_replay_await h hpos (by omega)
    have hwaits : Waits ctx known (.replay .active position) := waits_replay (by omega)
    have hnext := hready .active rfl (known + 1) (by omega)
    by_cases hend : known = input.rows.length
    · obtain rfl : position = input.rows.length := by omega
      cases hfault : input.fault? with
      | some e =>
        rw [Flow.drop_length, hfault]
        exact .doom rfl hend hfault hawait hwaits
      | none => exact .wait rfl (by omega) (fun _ => hfault) hawait hwaits hnext
    · exact .wait rfl (by omega) (fun heq => absurd heq hend) hawait hwaits hnext
  | succ ahead ih =>
    exact .wait rfl (by omega) (fun heq => by omega) (takes_replay_await h hpos (by omega))
      (waits_replay (by omega)) (ih rfl (known + 1) (by omega) (by omega))

/-- **Readers replay.** A reader comes to the input of its scope, from its position on. -/
theorem Runs.replay (hpos : position ≤ input.rows.length) {phase : Phase}
    (h : phase.isDone = false) :
    Gives ctx (some input) (.replay phase position) (input.drop position) := by
  obtain ⟨left, hleft⟩ := Nat.exists_eq_add_of_le hpos
  induction left generalizing position phase with
  | zero =>
    obtain rfl : position = input.rows.length := hleft.symm
    exact replay_waiting hpos (fun phase h known hknown => replay_end h hknown) h
  | succ left ih =>
    have hnext : Gives ctx (some input) (.replay .active (position + 1))
        (input.drop (position + 1)) := ih (by omega) rfl (by omega)
    exact replay_waiting hpos (fun phase h known hknown => replay_row h hnext (by omega) hknown) h

end Replay

/-! ## Steps of scopes -/

section Steps

variable {ctx : Context} {scope : Option SharedRows} {shared : SharedRows} {input p q : Pipe}
  {signal : Signal} {state : RunState} {known : Nat} {e : ExecError}

/-- The scope after a step of its body: it has the readers that are left, and has closed its input
if the last one is gone. -/
def Pipe.scopeAfter (shared : SharedRows) (input body : Pipe) : Pipe :=
  if body.readers = 0 ∧ 0 < shared.openReaders then
    .share { shared.clear with openReaders := 0, rows := #[] } input.close.1 body
  else .share { shared.clear with openReaders := body.readers } input body

theorem releases_eq_zero_iff {events : List Event} :
    releases events = 0 ↔ events.any Event.isRelease = false := by
  rw [← Bool.not_eq_true, ← releases_pos_iff]
  omega

/-- A step of the body that releases no reader is a step of the scope. -/
theorem share_quiet (h : DoesQuietly (p.step ctx (some shared) state) signal q)
    (hs : signal ≠ .await) :
    DoesQuietly ((Pipe.share shared input p).step ctx scope state) signal
      (.share shared.clear input q) := by
  obtain ⟨⟨hsignal, hpipe, hrunning⟩, hsilent⟩ := h
  rw [Pipe.step_share, if_neg (ne_true_of_eq_false (releases_eq_zero_iff.1 hsilent)), hsignal,
    if_neg hs, hpipe]
  exact ⟨⟨hsignal, rfl, hrunning⟩, hsilent⟩

/-- The readers that a step of the body releases are those that it loses. -/
theorem share_balance (hc : (Pipe.share shared input p).Counted)
    (h : Does (p.step ctx (some shared) state) signal q) :
    releases (p.step ctx (some shared) state).events + q.readers = shared.openReaders := by
  have hkeeps := p.step_balance ctx hc.2.2 (some shared) state
  rw [h.pipe] at hkeeps
  exact hkeeps.trans hc.1.1.symm

/-- A step of the body with which readers are released. -/
theorem share_release (hc : (Pipe.share shared input p).Counted)
    (h : Does (p.step ctx (some shared) state) signal q) (hr : q.readers < shared.openReaders) :
    Does ((Pipe.share shared input p).step ctx scope state)
      (if signal = .await then .skip else signal) (Pipe.scopeAfter shared input q) := by
  have hbalance := share_balance hc h
  have hany : (p.step ctx (some shared) state).events.any Event.isRelease = true :=
    releases_pos_iff.1 (by omega)
  rw [Pipe.step_share, if_pos hany]
  obtain ⟨hsignal, hpipe, hrunning⟩ := h
  unfold Pipe.scopeAfter
  by_cases hzero : q.readers = 0
  · have hlast : releases (p.step ctx (some shared) state).events = shared.clear.openReaders := by
      show _ = shared.openReaders
      omega
    obtain ⟨more, -, hsettle⟩ := shared.clear.settle_last input (fun _ => input.close) hlast
      (Nat.zero_lt_of_lt hr)
    rw [if_pos (c := q.readers = 0 ∧ _) ⟨hzero, Nat.zero_lt_of_lt hr⟩]
    unfold shareSettle
    simp only [hsettle, hsignal, hpipe]
    exact ⟨rfl, rfl, hrunning⟩
  · have hsome : releases (p.step ctx (some shared) state).events < shared.clear.openReaders := by
      show _ < shared.openReaders
      omega
    have hsettle := shared.clear.settle_open input (fun _ => input.close) (.inl hsome)
    have hleft : shared.clear.openReaders - releases (p.step ctx (some shared) state).events =
        q.readers := by
      show shared.openReaders - _ = q.readers
      omega
    rw [if_neg (c := q.readers = 0 ∧ _) fun hlast => hzero hlast.1]
    unfold shareSettle
    simp only [hsettle, hsignal, hpipe, hleft]
    exact ⟨rfl, rfl, hrunning⟩

/-- A step of the body that is not waiting is a step of the scope. -/
theorem share_step (hc : (Pipe.share shared input p).Counted)
    (h : Does (p.step ctx (some shared) state) signal q) (hs : signal ≠ .await) :
    Does ((Pipe.share shared input p).step ctx scope state) signal
      (Pipe.scopeAfter shared input q) := by
  have hbalance := share_balance hc h
  by_cases hr : q.readers < shared.openReaders
  · have hrelease : Does ((Pipe.share shared input p).step ctx scope state)
        (if signal = .await then .skip else signal) (Pipe.scopeAfter shared input q) :=
      share_release hc h hr
    rwa [if_neg hs] at hrelease
  · have hsame : shared.openReaders = q.readers := by omega
    have hafter : Pipe.scopeAfter shared input q = .share shared.clear input q := by
      unfold Pipe.scopeAfter
      rw [if_neg (by omega), ← hsame]
      rfl
    rw [hafter]
    exact (share_quiet ⟨h, by omega⟩ hs).toDoes

/-- While the body waits, a step of the scope is a step of its input. -/
theorem share_blocked (hw : Waits ctx shared.rows.size q) (hdone : shared.inputDone = false)
    (hclean : shared.fault = none) (hs : state.cancelled = false) :
    (Pipe.share shared input q).step ctx scope state =
      shareRead shared q [] (input.step ctx scope state) := by
  rw [Pipe.step_share, hw.blocked shared state rfl hdone hclean hs, Pipe.clear_of_clean hclean]
  rfl

/-! ## Scopes that wait or fail -/

theorem Doomed.share_body (h : Doomed ctx e q) (shared : SharedRows) (input : Pipe) :
    Doomed ctx e (.share shared input q) := by
  induction h generalizing shared with
  | fail h => exact .fail fun scope state hs => share_quiet (h _ state hs) (nomatch ·)
  | skip h hq ih =>
    exact .skip (fun scope state hs => share_quiet (h _ state hs) (nomatch ·)) (ih shared.clear)

/-- A scope that has noted a failure fails if its body waits for it. -/
theorem Waits.share_fault (hw : Waits ctx known q) (shared : SharedRows)
    (hfault : shared.fault = some e) (input : Pipe) : Doomed ctx e (.share shared input q) := by
  obtain ⟨next, hfail | ⟨hnext, hskip⟩⟩ := hw.reports e
  · exact .fail fun scope state hs => share_quiet (hfail shared state hfault hs) (nomatch ·)
  · exact .skip (fun scope state hs => share_quiet (hskip shared state hfault hs) (nomatch ·))
      (hnext.share_body _ input)

/-- What a scope with a waiting body makes of a step of its input. -/
theorem DoesQuietly.shareRead {s : Step} (h : DoesQuietly s signal q) (hs : signal ≠ .await)
    (shared : SharedRows) (body : Pipe) :
    DoesQuietly (shareRead shared body [] s) .skip (.share (shared.absorb signal) q body) := by
  obtain ⟨⟨hsignal, hpipe, hrunning⟩, hsilent⟩ := h
  refine ⟨⟨?_, ?_, hrunning⟩, hsilent⟩
  · show (if s.signal = .await then Signal.await else .skip) = .skip
    rw [hsignal, if_neg hs]
  · show Pipe.share (shared.absorb s.signal) s.pipe body = _
    rw [hsignal, hpipe]

theorem Does.shareRead {s : Step} (h : Does s signal q) (shared : SharedRows) (body : Pipe) :
    Does (shareRead shared body [] s) (if signal = .await then .await else .skip)
      (.share (shared.absorb signal) q body) := by
  obtain ⟨hsignal, hpipe, hrunning⟩ := h
  rw [← hsignal, ← hpipe]
  exact ⟨rfl, rfl, hrunning⟩

theorem Doomed.share_input (h : Doomed ctx e input) (hw : Waits ctx shared.rows.size q)
    (hdone : shared.inputDone = false) (hclean : shared.fault = none) :
    Doomed ctx e (.share shared input q) := by
  induction h with
  | @fail p next h =>
    refine .skip (fun scope state hs => ?_) (hw.share_fault (shared.absorb (.fail e)) rfl next)
    rw [share_blocked hw hdone hclean hs]
    exact (h scope state hs).shareRead (nomatch ·) shared q
  | skip h hq ih =>
    refine .skip (fun scope state hs => ?_) ih
    rw [share_blocked hw hdone hclean hs]
    exact (h scope state hs).shareRead (nomatch ·) shared q

/-- A scope with a waiting body waits as its input does. -/
theorem Waits.share (hi : Waits ctx known input) (hw : Waits ctx shared.rows.size q)
    (hdone : shared.inputDone = false) (hclean : shared.fault = none) :
    Waits ctx known (.share shared input q) where
  open' := hi.open'
  blocked outer state hsize hdone' hclean' hs := by
    rw [share_blocked hw hdone hclean hs, hi.blocked outer state hsize hdone' hclean' hs]
    rfl
  reports e := by
    obtain ⟨next, hfail | ⟨hnext, hskip⟩⟩ := hi.reports e
    · refine ⟨.share (shared.absorb (.fail e)) next q, .inr ⟨hw.share_fault _ rfl next, ?_⟩⟩
      intro outer state hfault hs
      rw [share_blocked hw hdone hclean hs]
      exact (hfail outer state hfault hs).shareRead (nomatch ·) shared q
    · refine ⟨.share shared next q, .inr ⟨hnext.share_input hw hdone hclean, ?_⟩⟩
      intro outer state hfault hs
      rw [share_blocked hw hdone hclean hs]
      exact (hskip outer state hfault hs).shareRead (nomatch ·) shared q

end Steps

/-! ## Runs of scopes -/

section Scopes

variable {ctx : Context} {all : Option Flow} {at' known : Nat} {whole : Flow}
  {shared : SharedRows} {input p q : Pipe} {f : Flow}

/-- What a scope holds that has read `known` pieces of its input: the first rows, and there is the
rest of the input to come, or all of them. The input itself stands in a scope that has read `at'`
pieces. -/
inductive Holds (ctx : Context) (all : Option Flow) (at' : Nat) (whole : Flow) :
    Nat → SharedRows → Pipe → Prop where
  | reading (shared : SharedRows) {input : Pipe} {rest : Flow} (hdone : shared.inputDone = false)
    (hclean : shared.fault = none)
    (hwhole : whole = .ofRows shared.rows.toList ++ rest.limit shared.limit shared.rows.size)
    (hi : Runs ctx all at' input rest) : Holds ctx all at' whole shared.rows.size shared input
  | ended (shared : SharedRows) {input : Pipe} (hdone : shared.inputDone = true)
    (hclean : shared.fault = none) (hwhole : whole = .ofRows shared.rows.toList) :
    Holds ctx all at' whole (shared.rows.size + 1) shared input

/-- A scope serves its body with what it holds. -/
theorem Holds.serves (h : Holds ctx all at' whole known shared input) :
    Serves whole known shared := by
  cases h with
  | reading shared hdone hclean hwhole hi =>
    have hrows := congrArg Flow.rows hwhole
    rw [Flow.rows_ofRows_append] at hrows
    have hle : shared.rows.size ≤ whole.rows.length := by
      rw [hrows, List.length_append, Array.length_toList]
      exact Nat.le_add_right _ _
    refine ⟨?_, hdone.trans (decide_eq_false (Nat.not_lt.2 hle)).symm, hclean,
      fun hlt => absurd hlt (Nat.not_lt.2 hle)⟩
    rw [hrows, ← Array.length_toList, List.take_left]
  | ended shared hdone hclean hwhole =>
    subst hwhole
    refine ⟨?_, ?_, hclean, fun _ => Flow.fault?_ofRows _⟩
    · rw [Flow.rows_ofRows, List.take_of_length_le (by rw [Array.length_toList]; omega)]
    · rw [hdone, Flow.rows_ofRows, Array.length_toList]
      exact (decide_eq_true (Nat.lt_succ_self _)).symm

/-- The number of open readers does not matter for what a scope holds. -/
theorem Holds.withReaders (h : Holds ctx all at' whole known shared input) (n : Nat) :
    Holds ctx all at' whole known { shared.clear with openReaders := n } input := by
  cases h with
  | reading shared hdone _ hwhole hi =>
    exact .reading { shared.clear with openReaders := n } hdone rfl hwhole hi
  | ended shared hdone _ hwhole =>
    exact .ended { shared.clear with openReaders := n } hdone rfl hwhole

/-- A scope that has lost its readers does as its body does. -/
theorem Runs.share_dead (h : Runs ctx (some whole) known p f)
    (hscope : ∃ shared, Serves whole known shared) (hp : p.Counted) (hr : p.readers = 0)
    (shared : SharedRows) (input : Pipe) : Runs ctx all at' (.share shared input p) f := by
  obtain ⟨served, hserves⟩ := hscope
  have hin : InScope (some whole) known (some served) := ⟨served, rfl, hserves⟩
  clear hserves
  induction h generalizing shared with
  | yield h hq ih =>
    obtain ⟨hstep, hqc, hqr⟩ := h.anywhere hin hp hr
    exact .yield (fun _ state _ hs => (share_quiet (hstep _ state hs) (nomatch ·)).toDoes)
      (ih hqc hqr shared.clear hin)
  | skip h hq ih =>
    obtain ⟨hstep, hqc, hqr⟩ := h.anywhere hin hp hr
    exact .skip (fun _ state _ hs => (share_quiet (hstep _ state hs) (nomatch ·)).toDoes)
      (ih hqc hqr shared.clear hin)
  | done h =>
    obtain ⟨hstep, -, -⟩ := h.anywhere hin hp hr
    exact .done fun _ state _ hs => (share_quiet (hstep _ state hs) (nomatch ·)).toDoes
  | fail h =>
    obtain ⟨hstep, -, -⟩ := h.anywhere hin hp hr
    exact .fail fun _ state _ hs => (share_quiet (hstep _ state hs) (nomatch ·)).toDoes
  | wait hall hknown hend h hw hq ih =>
    obtain ⟨-, -, hqr⟩ := h.anywhere hin hp hr
    exact absurd hw.open' (by omega)
  | doom hall hknown hend h hw =>
    obtain ⟨-, -, hqr⟩ := h.anywhere hin hp hr
    exact absurd hw.open' (by omega)

/-- The next pipeline has counted its readers, too. -/
theorem Takes.counted {signal : Signal} {scope : Option SharedRows}
    (h : Takes ctx all known p signal q) (hscope : InScope all known scope) (hp : p.Counted) :
    q.Counted := by
  have hkeeps := p.step_counted ctx hp scope .initial
  rwa [(h scope .initial hscope rfl).pipe] at hkeeps

/-- The scope goes on after a step of its body. -/
theorem Runs.scopeAfter (hc : (Pipe.share shared input p).Counted) (hqc : q.Counted)
    (hq : Runs ctx (some whole) known q f) (hholds : Holds ctx all at' whole known shared input)
    (ih : ∀ shared, Holds ctx all at' whole known shared input →
      (Pipe.share shared input q).Counted → Runs ctx all at' (.share shared input q) f) :
    Runs ctx all at' (Pipe.scopeAfter shared input q) f := by
  unfold Pipe.scopeAfter
  by_cases hlast : q.readers = 0 ∧ 0 < shared.openReaders
  · rw [if_pos hlast]
    exact hq.share_dead ⟨shared, hholds.serves⟩ hqc hlast.1 _ _
  · rw [if_neg hlast]
    refine ih _ (hholds.withReaders _) ⟨⟨rfl, fun hzero => hc.1.2 ?_⟩, hc.2.1, hqc⟩
    have hzero' : q.readers = 0 := hzero
    omega

theorem Waits.share_counted (hw : Waits ctx known q) (hq : q.Counted) (hi : input.Counted)
    (hreaders : shared.openReaders = q.readers) : (Pipe.share shared input q).Counted := by
  refine ⟨⟨hreaders, fun hzero => ?_⟩, hi, hq⟩
  have := hw.open'
  omega

/-- The scope reads on while its body waits. It comes to a piece of its input, or to a failure of
the input or of its own buffer. -/
theorem Runs.share_wait (hw : Waits ctx known q) (hqc : q.Counted)
    (hread : ∀ {at' : Nat} {shared : SharedRows} {input : Pipe},
      (known = whole.rows.length → whole.fault? = none) →
      Holds ctx all at' whole (known + 1) shared input → (Pipe.share shared input q).Counted →
        Runs ctx all at' (.share shared input q) f)
    (hfail : known = whole.rows.length → ∀ e, whole.fault? = some e → f = .fail e)
    {rest : Flow} (hi : Runs ctx all at' input rest) (hic : input.Counted)
    (hdone : shared.inputDone = false) (hclean : shared.fault = none)
    (hreaders : shared.openReaders = q.readers) (hsize : shared.rows.size = known)
    (hwhole : whole = .ofRows shared.rows.toList ++ rest.limit shared.limit known) :
    Runs ctx all at' (.share shared input q) f := by
  subst hsize
  -- a step of the scope is one of its input
  have htakes {at' : Nat} {input next : Pipe} {signal : Signal}
      (h : Takes ctx all at' input signal next) :
      Takes ctx all at' (.share shared input q) (if signal = .await then .await else .skip)
        (.share (shared.absorb signal) next q) := by
    intro scope state hscope hs
    rw [share_blocked hw hdone hclean hs]
    exact (h scope state hscope hs).shareRead shared q
  have hlength : whole.rows.length =
      shared.rows.size + (rest.limit shared.limit shared.rows.size).rows.length := by
    rw [hwhole, Flow.length_ofRows_append, Array.length_toList]
  have hfault : whole.fault? = (rest.limit shared.limit shared.rows.size).fault? := by
    rw [hwhole, Flow.fault?_ofRows_append]
  induction hi with
  | @yield at' input next b rest h hq ih =>
    refine .of_reachable fun ⟨scope, hscope⟩ => ?_
    rw [Flow.limit] at hwhole hlength hfault
    by_cases hlimit : exceeds (shared.rows.size + 1) shared.limit = true
    · rw [if_pos hlimit] at hlength hfault
      rw [hfail hlength.symm _ hfault]
      refine .skip (htakes h) ((hw.share_fault _ ?_ next).runs all at')
      show (if exceeds (shared.rows.push b).size shared.limit then _ else _) = _
      rw [Array.size_push, if_pos hlimit]
    · rw [if_neg hlimit] at hlength hwhole
      have hsize : (shared.keep b).rows.size = shared.rows.size + 1 := Array.size_push b
      have hkept : (shared.keep b).fault = none := by
        show (if exceeds (shared.rows.push b).size shared.limit then _ else _) = _
        rw [Array.size_push, if_neg hlimit]
      have hrows : whole = .ofRows (shared.keep b).rows.toList ++
          rest.limit shared.limit (shared.keep b).rows.size := by
        rw [hwhole, hsize]
        show _ = Flow.ofRows (shared.rows.push b).toList ++ _
        rw [Array.toList_push, Flow.ofRows_append, Flow.append_assoc]
        rfl
      have hholds := Holds.reading (shared.keep b) hdone hkept hrows hq
      rw [hsize] at hholds
      refine .skip (htakes h) (hread (fun heq => ?_) hholds
        (hw.share_counted hqc (h.counted hscope hic) hreaders))
      rw [Flow.rows, List.length_cons] at hlength
      omega
  | @skip at' input next rest h hq ih =>
    refine .of_reachable fun ⟨scope, hscope⟩ => ?_
    exact .skip (htakes h) (ih (h.counted hscope hic) hwhole hlength hfault)
  | @done at' input next h =>
    refine .of_reachable fun ⟨scope, hscope⟩ => ?_
    have hholds : Holds ctx all at' whole (shared.rows.size + 1) (shared.absorb .done) next := by
      refine .ended (shared.absorb .done) rfl hclean (hwhole.trans ?_)
      exact Flow.append_done _
    exact .skip (htakes h)
      (hread (fun _ => hfault) hholds (hw.share_counted hqc (h.counted hscope hic) hreaders))
  | @fail at' input next e h =>
    rw [hfail hlength.symm e hfault]
    exact .skip (htakes h) ((hw.share_fault _ rfl next).runs all at')
  | @wait at' input next rest outer hall hknown hend h hwait hq ih =>
    refine .of_reachable fun ⟨scope, hscope⟩ => ?_
    exact .wait hall hknown hend (htakes h) (hwait.share hw hdone hclean)
      (ih (h.counted hscope hic) hwhole hlength hfault)
  | @doom at' input next e outer hall hknown hend h hwait =>
    rw [hfail hlength.symm e hfault]
    exact .doom hall hknown hend (htakes h) (hwait.share hw hdone hclean)

/-- The scope when its body starts to wait. -/
theorem Runs.share_awaits (hc : (Pipe.share shared input p).Counted)
    (h : Takes ctx (some whole) known p .await q) (hserves : Serves whole known shared)
    (hw : Waits ctx shared.rows.size q) (hdone : shared.inputDone = false)
    (hq : Runs ctx all at' (.share { shared.clear with openReaders := q.readers } input q) f) :
    Runs ctx all at' (.share shared input p) f := by
  have hstep (state : RunState) (hs : state.cancelled = false) :
      Does (p.step ctx (some shared) state) .await q := h _ state ⟨shared, rfl, hserves⟩ hs
  have hbalance (state : RunState) (hs : state.cancelled = false) :
      releases (p.step ctx (some shared) state).events + q.readers = shared.openReaders :=
    share_balance hc (hstep state hs)
  by_cases hr : q.readers < shared.openReaders
  · refine .skip (fun scope state _ hs => share_release hc (hstep state hs) hr) ?_
    have hopen := hw.open'
    unfold Pipe.scopeAfter
    rw [if_neg (by omega)]
    exact hq
  · have hsame : ({ shared.clear with openReaders := q.readers } : SharedRows) = shared := by
      have hreaders : q.readers = shared.openReaders := by
        have := hbalance .initial rfl
        omega
      rw [Pipe.clear_of_clean hserves.clean, hreaders]
    rw [hsame] at hq
    refine hq.behind fun scope state _ hs => ?_
    obtain ⟨hsignal, hpipe, hrunning⟩ := hstep state hs
    refine ⟨(p.step ctx (some shared) state).events, (p.step ctx (some shared) state).state,
      hrunning, ?_⟩
    have hsilent : releases (p.step ctx (some shared) state).events = 0 := by
      have := hbalance state hs
      omega
    rw [share_blocked hw hdone hserves.clean hrunning, Pipe.step_share,
      if_neg (ne_true_of_eq_false (releases_eq_zero_iff.1 hsilent)), if_pos hsignal, hpipe,
      Pipe.clear_of_clean hserves.clean]
    rfl

/-- A scope whose body has started to wait comes to what the body comes to once the scope has read
on. -/
theorem Runs.share_reads (hc : (Pipe.share shared input p).Counted)
    (h : Takes ctx (some whole) known p .await q) (hw : Waits ctx known q)
    (hholds : Holds ctx all at' whole known shared input) (hknown : known ≤ whole.rows.length)
    (hread : ∀ {at' : Nat} {shared : SharedRows} {input : Pipe},
      (known = whole.rows.length → whole.fault? = none) →
      Holds ctx all at' whole (known + 1) shared input → (Pipe.share shared input q).Counted →
        Runs ctx all at' (.share shared input q) f)
    (hfail : known = whole.rows.length → ∀ e, whole.fault? = some e → f = .fail e) :
    Runs ctx all at' (.share shared input p) f := by
  have hserves := hholds.serves
  have hqc := h.counted ⟨shared, rfl, hserves⟩ hc.2.2
  cases hholds with
  | reading shared hdone hclean hwhole hi =>
    refine share_awaits hc h hserves hw hdone ?_
    exact share_wait hw hqc hread hfail hi hc.2.1 hdone rfl rfl rfl hwhole
  | ended shared hdone hclean hwhole =>
    rw [hwhole, Flow.rows_ofRows, Array.length_toList] at hknown
    omega

/-- A scope comes to what its body comes to. -/
theorem Runs.share_runs (hp : Runs ctx (some whole) known p f)
    (hholds : Holds ctx all at' whole known shared input)
    (hc : (Pipe.share shared input p).Counted) : Runs ctx all at' (.share shared input p) f := by
  induction hp generalizing at' shared input with
  | @yield known p q b f h hq ih =>
    have hserves := hholds.serves
    exact .yield (fun scope state _ hs => share_step hc (h _ state ⟨shared, rfl, hserves⟩ hs)
      (nomatch ·)) (hq.scopeAfter hc (h.counted ⟨shared, rfl, hserves⟩ hc.2.2) hholds
        fun _ => ih)
  | @skip known p q f h hq ih =>
    have hserves := hholds.serves
    exact .skip (fun scope state _ hs => share_step hc (h _ state ⟨shared, rfl, hserves⟩ hs)
      (nomatch ·)) (hq.scopeAfter hc (h.counted ⟨shared, rfl, hserves⟩ hc.2.2) hholds
        fun _ => ih)
  | done h =>
    exact .done fun scope state _ hs =>
      share_step hc (h _ state ⟨shared, rfl, hholds.serves⟩ hs) (nomatch ·)
  | fail h =>
    exact .fail fun scope state _ hs =>
      share_step hc (h _ state ⟨shared, rfl, hholds.serves⟩ hs) (nomatch ·)
  | @wait known p q f outer hall hknown hend h hw hq ih =>
    cases hall
    refine share_reads hc h hw hholds hknown (fun _ => ih) fun hlast e he => ?_
    rw [hend hlast] at he
    cases he
  | @doom known p q e outer hall hknown hend h hw =>
    cases hall
    refine share_reads hc h hw hholds (Nat.le_of_eq hknown) (fun hclean => ?_) fun _ e' he => ?_
    · rw [hclean hknown] at hend
      cases hend
    · rw [hend] at he
      cases he
      rfl

/-- **Sharing.** What comes out of a shared input is what its body makes of the input, cut off where
the rows that are kept get past the limit. -/
theorem Runs.share {limit : Nat} {body : Pipe} {g : Flow} (hp : Gives ctx all p f)
    (hbody : Gives ctx (some (f.limit limit 0)) body g)
    (hc : (Pipe.share (.forTwo limit) p body).Counted) :
    Gives ctx all (.share (.forTwo limit) p body) g := by
  intro known
  have hholds : Holds ctx all known (f.limit limit 0) 0 (.forTwo limit) p :=
    .reading (.forTwo limit) rfl rfl rfl (hp known)
  exact (hbody 0).share_runs hholds hc

end Scopes

end TripleQuery
