import TripleQuery.Exec.Run

/-!
# Shared seeds

A shared input with any number of readers, each of which can be asked and closed by itself.
-/

namespace TripleQuery

/-- A shared input and its readers, in the order of their creation. -/
structure SharedSeed where
  shared : SharedRows
  input : Pipe
  readers : List Pipe

namespace SharedSeed

/-- A shared input without readers. -/
def ofInput (input : Pipe) (limit : Nat) : SharedSeed := ⟨⟨#[], false, none, 0, limit⟩, input, []⟩

/-- The shared input with one more reader, at the first row. -/
def addReader (s : SharedSeed) : SharedSeed :=
  { s with
    shared.openReaders := s.shared.openReaders + 1
    readers := s.readers ++ [.replay .created 0] }

/-- A reader in the scope of the input. -/
def scopeOf (s : SharedSeed) (reader : Pipe) : Pipe := .share s.shared s.input reader

/-- The shared input after something was done with the scope of one of its readers. -/
def update (s : SharedSeed) (i : Nat) : Pipe → SharedSeed
  | .share shared input reader => ⟨shared, input, s.readers.set i reader⟩
  | _ => s

/-- An answer about the scope of a reader, as one about the shared input. -/
def lift {α : Type} (s : SharedSeed) (i : Nat) (a : Answer Pipe α) : Answer SharedSeed α :=
  ⟨a.outcome, s.update i a.subject, a.log, a.state⟩

/-- The next row of a reader. -/
def next (ctx : Context) (fuel : Nat) (s : SharedSeed) (i : Nat) (state : RunState)
    (log : Array Event) : Answer SharedSeed (Option Binding) :=
  match s.readers[i]? with
  | some reader => s.lift i ((s.scopeOf reader).next ctx fuel state log)
  | none => ⟨.stalled, s, log, state⟩

/-- All further rows of a reader, which is closed. -/
def drain (ctx : Context) (fuel : Nat) (s : SharedSeed) (i : Nat) (state : RunState)
    (log : Array Event) : Answer SharedSeed (List Binding) :=
  match s.readers[i]? with
  | some reader => s.lift i ((s.scopeOf reader).drain ctx fuel state log)
  | none => ⟨.stalled, s, log, state⟩

/-- The shared input after a reader is closed, and the events of closing it. -/
def close (s : SharedSeed) (i : Nat) : SharedSeed × List Event :=
  match s.readers[i]? with
  | some reader => (s.update i (s.scopeOf reader).close.1, (s.scopeOf reader).close.2)
  | none => (s, [])

end SharedSeed

end TripleQuery
