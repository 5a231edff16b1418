import TripleQuery.Exec.Compile

/-!
# Ready-made realizations

Three realizations of extensions: a variable that ranges over integers, a refusal, and one that
records how its seed is used.
-/

namespace TripleQuery.Realizer

/-- The rows that bind a variable to the integers from zero below a bound. -/
def rangeRows (v : Variable) (count : Int) : List Binding :=
  (List.range count.toNat).map fun (i : Nat) => Binding.single v (.integer i)

/-- Joins the seed with the rows of a range; the payload has to be one. -/
def range : Realizer := fun ext _ seed =>
  match ext.payload with
  | .range v count => .ok (.joining .inner none seed (.bindings .created (rangeRows v count)))
  | _ => .refuse (.unsupported ext.name "bad payload") seed

/-- Realizes nothing. -/
def refuse : Realizer := fun ext _ seed => .refuse (.unsupported ext.name "refused") seed

/-- The seed itself, tracked under the name of the extension. -/
def track : Realizer := fun ext graph seed =>
  ⟨.ok (.tracked ext.name false seed), [.realized ext.name graph seed.name]⟩

end TripleQuery.Realizer
