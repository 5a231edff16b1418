import TripleQuery.Proofs.Answers.Sessions
import TripleQuery.Proofs.Pipe.Contents

/-!
# Watching an input

A pipeline that is tracked, under a name that nothing in it uses, answers as it does by itself, and
the events show each question it is asked and each time it is closed: one request per question
(`Pipe.next_tracked`), one report per time.
-/

namespace TripleQuery

/-- Whether the event is that a tracked pipeline of the name is asked for a row. -/
def Event.requests (id : String) : Event → Bool
  | pulled name => name == id
  | _ => false

/-- The number of times that tracked pipelines of a name are asked for a row. -/
def requests (id : String) (events : List Event) : Nat := events.countP (Event.requests id)

@[simp] theorem requests_append (id : String) (xs ys : List Event) :
    requests id (xs ++ ys) = requests id xs + requests id ys :=
  List.countP_append

variable {a : Allowance} {ctx : Context} {id : String} {n : Nat} {p : Pipe} {state : RunState}

theorem append_more_events (log : Array Event) (events more : List Event) :
    log ++ events ++ more = log ++ (events ++ more) := by
  apply Array.ext'
  simp only [Array.toList_appendList, List.append_assoc]

/-- A pipeline without the tracker leaves no trace of it. -/
theorem Allowance.untraced (hid : ¬ a.tracker id) {events : List Event}
    (h : ∀ e ∈ events, a.event e) : requests id events = 0 ∧ reports id events = 0 := by
  refine ⟨List.countP_eq_zero.2 fun e he hname => ?_, List.countP_eq_zero.2 fun e he hname => ?_⟩
  · have hallowed := h e he
    cases e with
    | pulled name => exact hid (beq_iff_eq.1 hname ▸ hallowed)
    | _ => cases hname
  · have hallowed := h e he
    cases e with
    | closed name => exact hid (beq_iff_eq.1 hname ▸ hallowed)
    | _ => cases hname

/-- Everything is allowed but extensions and one tracker. -/
def Allowance.without (id : String) : Allowance where
  extension _ := False
  failure _ := True
  tracker name := name ≠ id
  dataset _ := trivial
  cancelled := trivial
  tooLarge _ _ := trivial

theorem Allowance.without_tracker (id : String) : ¬ (without id).tracker id := fun h => h rfl

theorem Allowance.without_realized (id : String) : (without id).Realized .standard :=
  fun _ h => h.elim

namespace Pipe

/-- An answer does not depend on what has happened before. -/
theorem next_anew (ctx : Context) (n : Nat) (p : Pipe) (state : RunState) (log : Array Event) :
    p.next ctx n state log = (p.next ctx n state #[]).onto log := by
  have honto := next_onto ctx log n p state #[]
  rwa [Array.append_empty] at honto

/-- A step of a tracked pipeline is seen if no question is under way. -/
theorem step_traced (hctx : a.Realized ctx) (hid : ¬ a.tracker id) (hp : p.Within a)
    (calling : Bool) (state : RunState) : ∃ own : List Event,
      requests id own = (if calling then 0 else 1) ∧ reports id own = 0 ∧
        (tracked id calling p).step ctx none state =
          ⟨(p.step ctx none state).signal,
            .tracked id (p.step ctx none state).signal.isPending (p.step ctx none state).pipe, own,
            (p.step ctx none state).state⟩ := by
  have hs := step_stays_within hctx hp none nofun state
  obtain ⟨hrequests, hreports⟩ := a.untraced hid hs.events
  refine ⟨_, ?_, ?_, step_tracked⟩
  · cases calling with
    | true => exact hrequests
    | false =>
      have hseen : Event.requests id (.pulled id) = true := beq_self_eq_true id
      exact (List.countP_cons_of_pos hseen).trans (congrArg (· + 1) hrequests)
  · cases calling with
    | true => exact hreports
    | false => exact hreports

/-- A tracked pipeline answers as the pipeline does, and is seen to be asked once. -/
theorem next_tracked (hctx : a.Realized ctx) (hid : ¬ a.tracker id) (hp : p.Within a)
    (h : (p.next ctx n state #[]).outcome ≠ .stalled) (calling : Bool) (log : Array Event) :
    (p.next ctx n state #[]).subject.Within a ∧
      ∃ own : List Event, requests id own = (if calling then 0 else 1) ∧ reports id own = 0 ∧
        (tracked id calling p).next ctx n state log =
          ⟨(p.next ctx n state #[]).outcome, .tracked id false (p.next ctx n state #[]).subject,
            log ++ own, (p.next ctx n state #[]).state⟩ := by
  induction n generalizing p state calling log with
  | zero => exact absurd rfl h
  | succ n ih =>
    have hs := step_stays_within hctx hp none nofun state
    obtain ⟨own, hrequests, hreports, hstep⟩ := step_traced hctx hid hp calling state
    rw [next] at h ⊢
    rw [next, hstep]
    cases hsignal : (p.step ctx none state).signal with
    | skip =>
      simp only [hsignal] at h ⊢
      rw [next_anew] at h ⊢
      obtain ⟨hwithin, more, hmore, hmore', hnext⟩ := ih hs.pipe h true (log ++ own)
      refine ⟨hwithin, own ++ more, ?_, ?_, ?_⟩
      · rw [requests_append, hrequests, hmore]
        rfl
      · rw [reports_append, hreports, hmore']
      · rw [← append_more_events]
        exact hnext
    | yield _ | done | fail _ => exact ⟨hs.pipe, own, hrequests, hreports, rfl⟩
    | await =>
      simp only [hsignal] at h
      exact absurd rfl h

end Pipe

end TripleQuery
