import TripleQuery.Proofs.Pipe.Readers

/-!
# What is owed

Whoever owns a pipeline owes its closing. What closing a pipeline sets off is `p.close.2`: the
releases of its open readers, and a report from every tracked pipeline in it. `Settles done due`
says that the events `done` contain what is due and whatever was taken on along the way; the books
of compiling and of running are all of the form that what has happened, together with what is still
owed, settles what was owed before.

A pipeline is `Kept` if its scopes have counted their readers. Closing it releases every open reader
and leaves none (`Pipe.Kept.close`); if it is kept strictly, `Tidy`, everything in it is closed then
(`Pipe.Tidy.close_released`).
-/

namespace TripleQuery

open scoped List

/-! ## Reports -/

/-- Whether the event is that a tracked pipeline of the name is closed. -/
def Event.reports (id : String) : Event → Bool
  | closed name => name == id
  | _ => false

/-- Whether the event is that a pipeline tracked under the name is built. -/
def Event.announces (id : String) : Event → Bool
  | realized name .. => name == id
  | _ => false

/-- The number of times that tracked pipelines of a name are closed. -/
def reports (id : String) (events : List Event) : Nat := events.countP (Event.reports id)

/-- The number of pipelines that are built and tracked under a name. -/
def announcements (id : String) (events : List Event) : Nat := events.countP (Event.announces id)

section Counting

variable (id : String)

@[simp] theorem reports_append (xs ys : List Event) :
    reports id (xs ++ ys) = reports id xs + reports id ys :=
  List.countP_append

@[simp] theorem announcements_append (xs ys : List Event) :
    announcements id (xs ++ ys) = announcements id xs + announcements id ys :=
  List.countP_append

theorem reports_unreleased (events : List Event) :
    reports id (unreleased events) = reports id events := by
  unfold reports unreleased
  rw [List.countP_filter]
  refine List.countP_congr fun e _ => ?_
  cases e <;> simp [Event.reports, Event.isRelease]

theorem announcements_unreleased (events : List Event) :
    announcements id (unreleased events) = announcements id events := by
  unfold announcements unreleased
  rw [List.countP_filter]
  refine List.countP_congr fun e _ => ?_
  cases e <;> simp [Event.announces, Event.isRelease]

end Counting

/-! ## Settling -/

/-- What has happened contains what was due, and for every pipeline announced a report that it is
closed. A release has happened exactly as often as it was due. -/
structure Settles (done due : List Event) : Prop where
  releases : releases done = releases due
  reports (id : String) : announcements id done + reports id due ≤ reports id done

namespace Settles

variable {done done' due due' more : List Event}

theorem nil : Settles [] [] := ⟨rfl, fun _ => Nat.le_refl _⟩

theorem perm (h : Settles done due) (hdone : done ~ done') (hdue : due ~ due') :
    Settles done' due' where
  releases := by rw [← releases_perm hdone, ← releases_perm hdue, h.releases]
  reports id := by
    have hreports := h.reports id
    unfold TripleQuery.reports announcements at hreports ⊢
    rwa [← hdone.countP_eq, ← hdue.countP_eq, ← hdone.countP_eq]

theorem append (h : Settles done due) (h' : Settles done' due') :
    Settles (done ++ done') (due ++ due') where
  releases := by simp only [releases_append, h.releases, h'.releases]
  reports id := by
    have hreports := h.reports id
    have hreports' := h'.reports id
    simp only [reports_append, announcements_append]
    omega

/-- What is still owed is settled later. -/
theorem trans (h : Settles (done ++ more) due) (h' : Settles done' more) :
    Settles (done ++ done') due where
  releases := by
    have hreleases := h.releases
    rw [releases_append] at hreleases ⊢
    rw [h'.releases, hreleases]
  reports id := by
    have hreports := h.reports id
    have hreports' := h'.reports id
    simp only [reports_append, announcements_append] at hreports ⊢
    omega

/-- A scope settles what its input owed, if that is closed among the events. -/
theorem unreleased (h : Settles done due) : Settles (unreleased done) (unreleased due) where
  releases := by simp only [releases_unreleased]
  reports id := by
    have hreports := h.reports id
    rwa [reports_unreleased, reports_unreleased, announcements_unreleased]

end Settles

/-! ## Kept and released pipelines -/

namespace Pipe

/-- Everything in the pipeline is closed: no stage goes on, no reader is open, and no scan is in
the middle of what it found. -/
def Released : Pipe → Prop
  | bindings phase _ | script phase _ | replay phase _ | concatEnd phase => phase = .closed
  | tracked _ _ input => input.Released
  | share shared input body => shared.openReaders = 0 ∧ input.Released ∧ body.Released
  | scan phase _ _ at' input => phase = .closed ∧ at' = .idle ∧ input.Released
  | filter phase _ input | optional phase _ _ _ input | graphs phase _ _ _ _ input
  | names phase _ _ _ input | table phase _ _ input | order phase _ _ input
  | project phase _ input | distinct phase _ _ input | slice phase _ _ input =>
    phase = .closed ∧ input.Released
  | join phase _ _ _ left right => phase = .closed ∧ left.Released ∧ right.Released
  | concat phase _ first rest => phase = .closed ∧ first.Released ∧ rest.Released
  | probing .. | within .. => False

/-- No reader in the pipeline is open; strictly, everything in it is closed. -/
structure Shut (strict : Prop) (p : Pipe) : Prop where
  readers : p.readers = 0
  released : strict → p.Released

/-- Every scope in the pipeline has counted its open readers, and its input is shut if there are
none; the operators that are yet to be compiled are of some kind. -/
def Kept (pending : Op → Prop) (strict : Prop) : Pipe → Prop
  | bindings .. | script .. | replay .. | concatEnd _ => True
  | share shared input body =>
    (shared.openReaders = body.readers ∧ (shared.openReaders = 0 → input.Shut strict)) ∧
      input.Kept pending strict ∧ body.Kept pending strict
  | tracked _ _ input | scan _ _ _ _ input | filter _ _ input | names _ _ _ _ input
  | table _ _ _ input | order _ _ _ input | project _ _ input | distinct _ _ _ input
  | slice _ _ _ input => input.Kept pending strict
  | optional _ right _ _ input => pending right ∧ input.Kept pending strict
  | graphs _ _ sub _ _ input => pending sub ∧ input.Kept pending strict
  | join _ _ _ _ left right => left.Kept pending strict ∧ right.Kept pending strict
  | probing right _ _ _ _ probe input =>
    pending right ∧ probe.Kept pending strict ∧ input.Kept pending strict
  | within _ sub _ _ _ inner input =>
    pending sub ∧ inner.Kept pending strict ∧ input.Kept pending strict
  | concat _ _ first rest => first.Kept pending strict ∧ rest.Kept pending strict

/-- Every scope in the pipeline has counted its open readers, and has closed its input if there are
none. -/
def Tidy (p : Pipe) : Prop := p.Kept (fun _ => True) True

end Pipe

/-! ## Closing -/

section Closing

variable {pending : Op → Prop} {strict : Prop}

/-- What closing the input of a scope sets off, as long as the scope has not closed it. -/
def SharedRows.inputDue (shared : SharedRows) (input : Pipe) : List Event :=
  if shared.openReaders = 0 then [] else input.close.2

/-- **A scope settles releases.** Of the events of its readers it passes on all but the releases;
and either its input stays open and owed, or it is closed with the last reader. -/
theorem SharedRows.settle_conserves (shared : SharedRows) {input : Pipe} (events : List Event)
    (hi : input.Kept pending strict) (hc : input.close.1.Kept pending strict)
    (hs : input.close.1.Shut strict) (hclosed : shared.openReaders = 0 → input.Shut strict)
    (h : releases events ≤ shared.openReaders) :
    ∃ shared' input' more,
      shared.settle input (fun _ => input.close) events = (shared', input', more) ∧
      shared'.openReaders = shared.openReaders - releases events ∧
      (shared'.openReaders = 0 → input'.Shut strict) ∧ input'.Kept pending strict ∧
      more ++ shared'.inputDue input' ~ unreleased events ++ shared.inputDue input := by
  by_cases hlast : releases events = shared.openReaders ∧ 0 < shared.openReaders
  · obtain ⟨hall, hpos⟩ := hlast
    obtain ⟨more, hmore, hsettle⟩ := shared.settle_last input (fun _ => input.close) hall hpos
    refine ⟨_, _, more, hsettle, by simp [hall], fun _ => hs, hc, ?_⟩
    unfold inputDue
    rw [if_pos rfl, if_neg (Nat.pos_iff_ne_zero.1 hpos), List.append_nil]
    exact hmore.trans List.perm_append_comm
  · have hopen : releases events < shared.openReaders ∨ releases events = 0 := by omega
    refine ⟨_, _, _, shared.settle_open input (fun _ => input.close) hopen, rfl, ?_, hi, ?_⟩
    · intro (hzero : shared.openReaders - releases events = 0)
      exact hclosed (by omega)
    · have hsame : shared.openReaders - releases events = 0 ↔ shared.openReaders = 0 := by omega
      unfold inputDue
      simp only [hsame]
      exact .refl _

/-- **Closing keeps the books.** It shuts the pipeline, and releases every open reader in it. -/
theorem Pipe.Kept.close {p : Pipe} (hp : p.Kept pending strict) :
    p.close.1.Kept pending strict ∧ p.close.1.Shut strict ∧ releases p.close.2 = p.readers := by
  induction p with
  | bindings | script | concatEnd => exact ⟨trivial, ⟨rfl, fun _ => rfl⟩, rfl⟩
  | replay phase position => exact ⟨trivial, ⟨rfl, fun _ => rfl⟩, by cases phase <;> rfl⟩
  | tracked id calling input ih =>
    obtain ⟨hc, hs, he⟩ := ih hp
    exact ⟨hc, ⟨hs.readers, hs.released⟩, (releases_cons_of_other rfl _).trans he⟩
  | share shared input body ihi ihb =>
    obtain ⟨⟨hcount, hclosed⟩, hi, hb⟩ := hp
    obtain ⟨hic, his, hie⟩ := ihi hi
    obtain ⟨hbc, hbs, hbe⟩ := ihb hb
    obtain ⟨shared', input', more, hsettle, hopen, hshut, hi', hmore⟩ :=
      shared.settle_conserves body.close.2 hi hic his hclosed
        (Nat.le_of_eq (hbe.trans hcount.symm))
    have hnone : shared'.openReaders = 0 := by omega
    rw [Pipe.close]
    simp only [hsettle]
    refine ⟨⟨⟨hnone.trans hbs.readers.symm, hshut⟩, hi', hbc⟩, ⟨(hshut hnone).readers, fun h =>
      ⟨hnone, (hshut hnone).released h, hbs.released h⟩⟩, ?_⟩
    have hreleases := releases_perm hmore
    rw [SharedRows.inputDue, if_pos hnone, List.append_nil, releases_append,
      releases_unreleased, Nat.zero_add] at hreleases
    refine hreleases.trans ?_
    unfold SharedRows.inputDue
    split
    · next hzero => exact (hclosed hzero).readers.symm
    · exact hie
  | scan _ _ _ _ input ih =>
    obtain ⟨hc, hs, he⟩ := ih hp
    exact ⟨hc, ⟨hs.readers, fun h => ⟨rfl, rfl, hs.released h⟩⟩, he⟩
  | filter _ _ input ih | names _ _ _ _ input ih | table _ _ _ input ih | order _ _ _ input ih
  | project _ _ input ih | distinct _ _ _ input ih | slice _ _ _ input ih =>
    obtain ⟨hc, hs, he⟩ := ih hp
    exact ⟨hc, ⟨hs.readers, fun h => ⟨rfl, hs.released h⟩⟩, he⟩
  | optional _ _ _ _ input ih | graphs _ _ _ _ _ input ih =>
    obtain ⟨hc, hs, he⟩ := ih hp.2
    exact ⟨⟨hp.1, hc⟩, ⟨hs.readers, fun h => ⟨rfl, hs.released h⟩⟩, he⟩
  | join _ _ _ _ left right ihl ihr | concat _ _ left right ihl ihr =>
    obtain ⟨hlc, hls, hle⟩ := ihl hp.1
    obtain ⟨hrc, hrs, hre⟩ := ihr hp.2
    refine ⟨⟨hlc, hrc⟩, ⟨Nat.add_eq_zero_iff.2 ⟨hls.readers, hrs.readers⟩, fun h =>
      ⟨rfl, hls.released h, hrs.released h⟩⟩, ?_⟩
    show releases (left.close.2 ++ right.close.2) = left.readers + right.readers
    rw [releases_append, hle, hre]
  | probing _ _ _ _ _ inner input ihp ihi | within _ _ _ _ _ inner input ihp ihi =>
    obtain ⟨hpc, hps, hpe⟩ := ihp hp.2.1
    obtain ⟨hic, his, hie⟩ := ihi hp.2.2
    refine ⟨⟨hp.1, hic⟩, ⟨his.readers, fun h => ⟨rfl, his.released h⟩⟩, ?_⟩
    show releases (input.close.2 ++ inner.close.2) = inner.readers + input.readers
    rw [releases_append, hpe, hie, Nat.add_comm]

/-- A stage around its input that owes `extra` besides what its input owes. -/
def Encloses (kept : Pipe → Prop) (stage : Pipe → Pipe) (extra : List Event) : Prop :=
  ∀ q : Pipe, kept q → kept (stage q) ∧ (stage q).close.2 ~ q.close.2 ++ extra

/-- A stage that owns nothing but its input. -/
theorem encloses_input {kept : Pipe → Prop} {stage : Pipe → Pipe}
    (hk : ∀ q, kept (stage q) = kept q) (hc : ∀ q, (stage q).close.2 = q.close.2) :
    Encloses kept stage [] := by
  intro q hq
  rw [hc, List.append_nil]
  exact ⟨(hk q).mpr hq, .refl _⟩

/-- A pipeline that was closed has nothing left to release. -/
theorem Pipe.Kept.releases_closed {p : Pipe} (hp : p.Kept pending strict) :
    releases p.close.1.close.2 = 0 := by
  obtain ⟨hc, hs, -⟩ := hp.close
  exact hc.close.2.2.trans hs.readers

/-- A tidy pipeline is released by closing it. -/
theorem Pipe.Tidy.close_released {p : Pipe} (hp : p.Tidy) : p.close.1.Released :=
  (Kept.close hp).2.1.released trivial

/-- What is owed for a scope: what is owed for its body, and its input. -/
theorem Pipe.Kept.close_share {shared : SharedRows} {input body : Pipe}
    (hp : (Pipe.share shared input body).Kept pending strict) :
    (Pipe.share shared input body).close.2 ~
      unreleased body.close.2 ++ shared.inputDue input := by
  obtain ⟨⟨hcount, hclosed⟩, hi, hb⟩ := hp
  obtain ⟨hic, his, -⟩ := hi.close
  obtain ⟨-, -, hbe⟩ := hb.close
  obtain ⟨shared', input', more, hsettle, hopen, -, -, hmore⟩ :=
    shared.settle_conserves body.close.2 hi hic his hclosed (Nat.le_of_eq (hbe.trans hcount.symm))
  have hnone : shared'.openReaders = 0 := by omega
  rw [SharedRows.inputDue, if_pos hnone, List.append_nil] at hmore
  rw [Pipe.close]
  simp only [hsettle]
  exact hmore

/-- What a scope and its readers owe after some events of the readers. -/
theorem Pipe.Kept.share_owes {shared : SharedRows} {input q : Pipe}
    (hp : (Pipe.share shared input q).Kept pending strict) {before events due : List Event}
    (h : events ++ shared.inputDue input ~ unreleased before ++ due) :
    unreleased (before ++ q.close.2) ++ due ~ events ++ (Pipe.share shared input q).close.2 :=
  calc unreleased (before ++ q.close.2) ++ due
      = (unreleased before ++ unreleased q.close.2) ++ due := by
        rw [unreleased_append]
    _ ~ unreleased q.close.2 ++ (unreleased before ++ due) := by
        rw [← List.append_assoc]
        exact List.perm_append_comm.append_right _
    _ ~ unreleased q.close.2 ++ (events ++ shared.inputDue input) := h.symm.append_left _
    _ ~ events ++ (unreleased q.close.2 ++ shared.inputDue input) := by
        rw [← List.append_assoc, ← List.append_assoc]
        exact List.perm_append_comm.append_right _
    _ ~ events ++ (Pipe.share shared input q).close.2 := hp.close_share.symm.append_left _

end Closing

/-! ## Closing as what is owed -/

theorem announcements_cons_of_other {id : String} {e : Event} (h : e.announces id = false)
    (events : List Event) : announcements id (e :: events) = announcements id events :=
  List.countP_cons_of_neg (by rw [h]; exact Bool.false_ne_true)

theorem announcements_settle {id : String} {input : Pipe} {close : Unit → Pipe × List Event}
    (hclose : announcements id (close ()).2 = 0) {events : List Event}
    (h : announcements id events = 0) (shared : SharedRows) :
    announcements id (shared.settle input close events).2.2 = 0 := by
  induction events generalizing shared input with
  | nil => rfl
  | cons e rest ih =>
    cases he : e.announces id with
    | true => exact absurd h (by unfold announcements; rw [List.countP_cons_of_pos he]; omega)
    | false =>
      rw [announcements_cons_of_other he] at h
      rw [SharedRows.settle]
      split
      · split
        · show announcements id ((close ()).2 ++ _) = 0
          rw [announcements_append, hclose, ih h]
        · exact ih h _
      · exact (announcements_cons_of_other he _).trans (ih h shared)

/-- Closing announces nothing. -/
theorem Pipe.announcements_close (id : String) (p : Pipe) : announcements id p.close.2 = 0 := by
  induction p with
  | bindings | script | concatEnd => rfl
  | replay phase position => cases phase <;> rfl
  | tracked _ _ input ih => exact (announcements_cons_of_other rfl _).trans ih
  | share shared input body ihi ihb => exact announcements_settle ihi ihb shared
  | scan _ _ _ _ input ih | filter _ _ input ih | optional _ _ _ _ input ih
  | graphs _ _ _ _ _ input ih | names _ _ _ _ input ih | table _ _ _ input ih
  | order _ _ _ input ih | project _ _ input ih | distinct _ _ _ input ih
  | slice _ _ _ input ih => exact ih
  | join _ _ _ _ left right ihl ihr | concat _ _ left right ihl ihr
  | probing _ _ _ _ _ right left ihr ihl | within _ _ _ _ _ right left ihr ihl =>
    show announcements id (left.close.2 ++ right.close.2) = 0
    rw [announcements_append, ihl, ihr]

/-- What is owed is settled by doing it. -/
theorem Pipe.settles_close (p : Pipe) : Settles p.close.2 p.close.2 :=
  ⟨rfl, fun id => Nat.le_of_eq (by rw [p.announcements_close, Nat.zero_add])⟩

theorem SharedRows.settles_inputDue (shared : SharedRows) (input : Pipe) :
    Settles (shared.inputDue input) (shared.inputDue input) := by
  unfold inputDue
  split
  · exact .nil
  · exact input.settles_close

end TripleQuery
