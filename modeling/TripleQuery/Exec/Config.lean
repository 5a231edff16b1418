/-!
# Configuration

The settings of a query's execution: a limit on buffers, how optional joins are realized, whether
filters move into pattern scans and whether counters are kept.
-/

namespace TripleQuery

/-- How an optional join is realized. -/
inductive LeftJoinStrategy where
  /-- Probe the optional side once per left row when it is a plain pattern. -/
  | auto
  /-- Always evaluate the optional side once, on its own. -/
  | exhaustive
deriving DecidableEq

/-- The settings of an execution. -/
structure Config where
  /-- The most rows that one operator may buffer; zero for no limit. -/
  maxRows : UInt64
  leftJoin : LeftJoinStrategy
  /-- Whether a filter over a pattern is applied as soon as its variables are bound. -/
  filterPlacement : Bool
  /-- Whether rows are counted. -/
  collectStats : Bool
deriving DecidableEq

namespace Config

/-- The settings used when none are given. -/
def standard : Config where
  maxRows := 1000000
  leftJoin := .auto
  filterPlacement := true
  collectStats := true

instance : Inhabited Config := ⟨standard⟩

end Config

/-- Whether a buffer of the given size is past a limit. -/
def exceeds (size limit : Nat) : Bool := 0 < limit && limit < size

end TripleQuery
