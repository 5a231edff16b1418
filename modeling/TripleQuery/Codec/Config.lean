import TripleQuery.Exec.Config
import TripleQuery.Json.Basic

/-!
# Configuration as JSON

The JSON form of the execution settings. A setting that is left out has its standard value. The
settings are read from an object only; as an array in the order in which they are declared, a form
that is never written, they are refused here.
-/

namespace TripleQuery

open Json (optional)

/-- A strategy as its name. -/
def LeftJoinStrategy.toJson : LeftJoinStrategy → Json
  | .auto => .string "auto"
  | .exhaustive => .string "exhaustive"

/-- The strategy of a name. -/
def LeftJoinStrategy.ofName? (name : String) : Option LeftJoinStrategy :=
  if name = "auto" then some .auto
  else if name = "exhaustive" then some .exhaustive
  else none

/-- A strategy from its name. -/
def LeftJoinStrategy.ofJson? (j : Json) : Option LeftJoinStrategy := j.asName?.bind ofName?

/-- A number of rows: an integer of 64 bits. -/
def rowCount? (j : Json) : Option UInt64 := do
  let n ← j.asInteger?
  if 0 ≤ n ∧ n < UInt64.size then some n.toNat.toUInt64 else none

/-- The settings as an object. -/
def Config.toJson (c : Config) : Json :=
  .object [("max_rows_in_memory", .integer c.maxRows.toNat),
    ("left_join_strategy", c.leftJoin.toJson), ("filter_placement", .bool c.filterPlacement),
    ("collect_stats", .bool c.collectStats)]

/-- The value of a setting, or its standard value if it is missing. -/
def settingOf? {α : Type} (read : Json → Option α) (standard : α) : Option Json → Option α
  | none => some standard
  | some v => read v

/-- The settings from an object. -/
def Config.ofJson? (j : Json) : Option Config := do
  let members ← j.asObject?
  let maxRows ← settingOf? rowCount? standard.maxRows (← optional "max_rows_in_memory" members)
  let leftJoin ← settingOf? LeftJoinStrategy.ofJson? standard.leftJoin
    (← optional "left_join_strategy" members)
  let filterPlacement ← settingOf? Json.asBool? standard.filterPlacement
    (← optional "filter_placement" members)
  let collectStats ← settingOf? Json.asBool? standard.collectStats
    (← optional "collect_stats" members)
  return ⟨maxRows, leftJoin, filterPlacement, collectStats⟩

end TripleQuery
