import TripleQuery.Exec.Step

/-!
# Stages with one input

Filters, projections, tables, slices, removal of duplicates and sorts.
-/

namespace TripleQuery

/-! ## Filters and projections -/

/-- A filter after a row. -/
def filterRow (ctx : Context) (condition : Expr) (row : Binding) (input : Pipe)
    (state : RunState) : Step :=
  if condition.admits row then
    ⟨.yield row, .filter .active condition input, [.test condition row], state⟩
  else
    ⟨.skip, .filter .active condition input, [.test condition row],
      state.recordFiltered ctx.config 1⟩

/-- A filter after a step of its input. -/
def filterStep (ctx : Context) (condition : Expr) (s : Step) : Step :=
  s.feed (.filter .active condition) (filterRow ctx condition)
    (Step.finish (.filter .exhausted condition))

/-- A projection after a step of its input. -/
def projectStep (vars : List Variable) (s : Step) : Step :=
  s.feed (.project .active vars)
    (fun row input => .quiet (.yield (row.project vars)) (.project .active vars input))
    (Step.finish (.project .exhausted vars))

/-! ## Tables -/

/-- A table after trying a row against one more of its own. -/
def tableTry (rows : List Binding) (row : Binding) (untried : List Binding) (input : Pipe)
    (state : RunState) : Step :=
  match untried with
  | [] => .quiet .skip (.table .active rows .idle input) state
  | other :: untried =>
    .quiet ((row.merge other).toOption.elim .skip .yield)
      (.table .active rows (.trying row untried) input) state

/-- A table after a step of its input. -/
def tableStep (rows : List Binding) (s : Step) : Step :=
  s.feed (.table .active rows .idle)
    (fun row input => .quiet .skip (.table .active rows (.trying row rows) input))
    (Step.finish (.table .exhausted rows .idle))

/-! ## Slices -/

/-- A slice after a row: one more is skipped, or one fewer remains. The input is closed with the
last row, since nobody may ask again. -/
def sliceRow (skip : Nat) (remaining : Option Nat) (row : Binding) (input : Pipe)
    (state : RunState) : Step :=
  match skip, remaining with
  | skip + 1, _ => .quiet .skip (.slice .active skip remaining input) state
  | 0, some n =>
    if n ≤ 1 then ⟨.yield row, .slice .active 0 (some 0) input.close.1, input.close.2, state⟩
    else .quiet (.yield row) (.slice .active 0 (some (n - 1)) input) state
  | 0, none => .quiet (.yield row) (.slice .active 0 none input) state

/-- A slice after a step of its input. -/
def sliceStep (skip : Nat) (remaining : Option Nat) (s : Step) : Step :=
  s.feed (.slice .active skip remaining) (sliceRow skip remaining)
    (Step.finish (.slice .exhausted skip remaining))

/-! ## Duplicates -/

/-- A removal of duplicates after a row. -/
def distinctRow (seen : List Binding) (limit : Nat) (row : Binding) (input : Pipe)
    (state : RunState) : Step :=
  if seen.contains row then .quiet .skip (.distinct .active seen limit input) state
  else
    let seen := row :: seen
    .quiet (if exceeds seen.length limit then .fail (.tooLarge seen.length limit) else .yield row)
      (.distinct .active seen limit input) state

/-- A removal of duplicates after a step of its input. -/
def distinctStep (seen : List Binding) (limit : Nat) (s : Step) : Step :=
  s.feed (.distinct .active seen limit) (distinctRow seen limit)
    (Step.finish (.distinct .exhausted [] limit))

/-! ## Sorts -/

/-- The order that a direction makes of an order. -/
def SortDirection.apply : SortDirection → Ordering → Ordering
  | .ascending, o => o
  | .descending, o => o.swap

/-- The values of some keys for a row; a failing key counts as unbound. -/
def keyValues (keys : List SortKey) (row : Binding) : List (Option Term) :=
  keys.map fun k => (k.expr.evaluate row).toOption

/-- The order of two lists of key values, most significant key first. -/
def compareKeys : List SortKey → List (Option Term) → List (Option Term) → Ordering
  | k :: keys, a :: as, b :: bs =>
    (k.direction.apply (sortOrder a b)).then (compareKeys keys as bs)
  | _, _, _ => .eq

/-- Rows with their key values, sorted; equal ones stay in order. -/
def sortRows (keys : List SortKey) (keyed : List (List (Option Term) × Binding)) : List Binding :=
  (keyed.mergeSort fun a b => (compareKeys keys a.1 b.1).isLE).map (·.2)

/-- A sort after a row. What it has gathered is lost if it fails. -/
def orderRow (ctx : Context) (keys : List SortKey)
    (keyed : Array (List (Option Term) × Binding)) (row : Binding) (input : Pipe)
    (state : RunState) : Step :=
  match state.checkCancelled with
  | .error e => .quiet (.fail e) (.order .active keys (.gathering #[]) input) state
  | .ok () =>
    let keyed := keyed.push (keyValues keys row, row)
    let events := keys.map fun k => Event.evaluate k.expr row
    if exceeds keyed.size ctx.maxRows then
      ⟨.fail (.tooLarge keyed.size ctx.maxRows), .order .active keys (.gathering #[]) input,
        events, state⟩
    else ⟨.skip, .order .active keys (.gathering keyed) input, events, state⟩

/-- A sort after the end of its input, which is closed. -/
def orderEnd (keys : List SortKey) (keyed : Array (List (Option Term) × Binding)) (input : Pipe)
    (state : RunState) : Step :=
  ⟨.skip, .order .active keys (.sorted (sortRows keys keyed.toList)) input.close.1, input.close.2,
    state⟩

/-- A sort after a step of its input. -/
def orderStep (ctx : Context) (keys : List SortKey)
    (keyed : Array (List (Option Term) × Binding)) (s : Step) : Step :=
  s.feedOr (.order .active keys (.gathering keyed)) (.order .active keys (.gathering #[]))
    (orderRow ctx keys keyed) (orderEnd keys keyed)

/-! ## Concatenations -/

/-- A concatenation after a step of its first part, which is closed when it has run out. -/
def concatFirstStep (rest : Pipe) (s : Step) : Step :=
  s.feed (fun first => .concat .active false first rest)
    (fun row first => .quiet (.yield row) (.concat .active false first rest))
    (fun first state => ⟨.skip, .concat .active true first.close.1 rest, first.close.2, state⟩)

/-- A concatenation after a step of the rest, which closes its parts itself. -/
def concatRestStep (first : Pipe) (s : Step) : Step :=
  s.feed (.concat .active true first)
    (fun row rest => .quiet (.yield row) (.concat .active true first rest))
    (fun rest => .quiet .done (.concat .exhausted true first rest))

end TripleQuery
