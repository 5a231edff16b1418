import TripleQuery.Exec.Config
import TripleQuery.Exec.Error

/-!
# The state of a run

What all parts of a running query share: whether it is cancelled, its counters, and how many
questions the dataset has been asked. The graph that plain patterns are matched against is not
part of it, because it differs between subtrees.
-/

namespace TripleQuery

/-- The graph that plain patterns are matched against. -/
inductive ActiveGraph where
  | default
  | named (name : Term)
deriving DecidableEq

/-- The written form of the active graph. -/
def ActiveGraph.render : ActiveGraph → String
  | .default => "default"
  | .named name => name.render

/-- Counters of rows, which wrap around at 64 bits. -/
structure Stats where
  scanned : UInt64
  produced : UInt64
  filtered : UInt64
deriving DecidableEq

/-- The shared state of a running query. -/
structure RunState where
  cancelled : Bool
  stats : Stats
  /-- The number of scans asked for. -/
  scans : Nat
  /-- The number of times the graph names were asked for. -/
  listings : Nat
deriving DecidableEq

namespace RunState

/-- The state before anything has run. -/
def initial : RunState := ⟨false, ⟨0, 0, 0⟩, 0, 0⟩

/-- The state once the query is cancelled. -/
def cancel (s : RunState) : RunState := { s with cancelled := true }

/-- The state, cancelled if so asked. -/
def cancelIf (asked : Bool) (s : RunState) : RunState := if asked then s.cancel else s

/-- Counts quads read from the dataset. -/
def recordScanned (s : RunState) (c : Config) (n : UInt64) : RunState :=
  if c.collectStats then { s with stats.scanned := s.stats.scanned + n } else s

/-- Counts rows returned to the caller. -/
def recordProduced (s : RunState) (c : Config) (n : UInt64) : RunState :=
  if c.collectStats then { s with stats.produced := s.stats.produced + n } else s

/-- Counts rows rejected by filters. -/
def recordFiltered (s : RunState) (c : Config) (n : UInt64) : RunState :=
  if c.collectStats then { s with stats.filtered := s.stats.filtered + n } else s

/-- Fails once the query is cancelled. -/
def checkCancelled (s : RunState) : Except ExecError Unit :=
  if s.cancelled then .error .cancelled else .ok ()

theorem checkCancelled_of_running {s : RunState} (h : s.cancelled = false) :
    s.checkCancelled = .ok () :=
  if_neg (ne_true_of_eq_false h)

theorem checkCancelled_of_cancelled {s : RunState} (h : s.cancelled = true) :
    s.checkCancelled = .error .cancelled :=
  if_pos h

end RunState

end TripleQuery
