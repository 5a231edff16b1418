import TripleQuery.Proofs.Pipe.Handover

/-!
# Refused operators

An operator tree that cannot be compiled leaves nothing open behind, wherever in the tree the
realization stands that fails or is missing: the seed is closed, and so is every pipeline that
another realization has returned before (`Op.refusal_closes`).
-/

namespace TripleQuery

/-! ## Registries -/

namespace Registry

theorem careful_of_entries {registry : Registry} (h : ∀ e ∈ registry.entries, e.2.Careful) :
    registry.Careful := by
  obtain ⟨entries⟩ := registry
  intro name r hr
  induction entries with
  | nil => cases hr
  | cons e rest ih =>
    obtain ⟨known, realizer⟩ := e
    unfold find? at hr ih
    rw [List.lookup_cons] at hr
    split at hr
    · cases hr
      exact h _ List.mem_cons_self
    · exact ih (fun e he => h e (List.mem_cons_of_mem _ he)) hr

end Registry

/-! ## Refusal -/

/-- **A refusal closes everything.** If an operator tree fails to compile over an input, in a
context whose realizations keep their contract, then closing the input has happened, and closing
every pipeline that a realization has returned while the tree was compiled. -/
theorem Op.refusal_closes (op : Op) {ctx : Context} (hctx : ctx.extensions.Careful) {p : Pipe}
    (hp : p.Tidy) {e : ExecError} (he : (compile op ctx (.input p)).result = .error e) :
    Settles (compile op ctx (.input p)).events p.close.2 ∧
      ∀ q, op.Realizes ctx (.input p) q → Covers (compile op ctx (.input p)).events q := by
  have hbuilds := compile_builds op ctx hctx (.input p) hp
  have hnone : (compile op ctx (.input p)).owed = [] := by
    unfold Compiled.owed
    rw [he]
  refine ⟨?_, fun q hq => ?_⟩
  · have hsettles := hbuilds.settles
    rwa [hnone, List.append_nil] at hsettles
  · have hcovers := hbuilds.covers q hq
    rwa [hnone, List.append_nil] at hcovers

namespace Refusal

/-- Two realizations: one that returns its seed and one that fails. -/
def registry : Registry := ⟨[("kept", Realizer.track), ("refused", Realizer.refuse)]⟩

def context : Context := { Context.standard with extensions := registry }

/-- A union with one branch that is realized and one in which the realization fails. -/
def query : Op :=
  .union (.extension ⟨"kept", .unit, 0⟩)
    (.join (.bgp []) (.distinct (.extension ⟨"refused", .unit, 1⟩)))

/-- An input that is tracked. -/
def input : Pipe := .tracked "input" false .identity

/-- What the first realization returns. -/
def kept : Pipe := .tracked "kept" false (.replay .created 0)

theorem registry_careful : registry.Careful := by
  refine Registry.careful_of_entries fun e he => ?_
  rcases List.mem_cons.1 he with rfl | he
  · exact Realizer.track_careful
  · obtain rfl := List.mem_singleton.1 he
    exact Realizer.refuse_careful

end Refusal

open Refusal in
theorem Op.refusal_closes_union :
    0 < reports "input" (compile query context (.input input)).events ∧
      0 < reports "kept" (compile query context (.input input)).events := by
  have hfail : (compile query context (.input input)).result =
      .error (.unsupported "refused" "refused") := rfl
  have hkept : query.Realizes context (.input input) kept := .inl ⟨Realizer.track, rfl, rfl⟩
  obtain ⟨hinput, hcovers⟩ := refusal_closes query registry_careful (p := input) trivial hfail
  have hreports := hinput.reports "input"
  have hone : reports "input" input.close.2 = 1 := by decide
  have hone' : reports "kept" kept.close.2 = 1 := by decide
  have hreports' := hcovers kept hkept "kept"
  omega

end TripleQuery
