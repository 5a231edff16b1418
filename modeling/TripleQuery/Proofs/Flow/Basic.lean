import TripleQuery.Exec.Run

/-!
# Flows

What comes out of a pipeline, apart from the steps it takes: some rows, and then the end or a
failure. Each stage is an operation on flows. Unlike an operation on lists it stops at a failure
of its input, and the stages that buffer rows fail by themselves when the buffer grows past its
limit.
-/

namespace TripleQuery

/-- What a pipeline gives out: rows, and then the end or a failure. -/
inductive Flow where
  | done
  | fail (e : ExecError)
  | row (b : Binding) (rest : Flow)

namespace Flow

/-- The flow of some rows. -/
def ofRows : List Binding → Flow
  | [] => done
  | b :: rest => row b (ofRows rest)

/-- The flow of a single row. -/
def single (b : Binding) : Flow := row b done

/-- The rows of a flow. -/
def rows : Flow → List Binding
  | done | fail _ => []
  | row b rest => b :: rest.rows

/-- The failure that a flow comes to, if any. -/
def fault? : Flow → Option ExecError
  | done => none
  | fail e => some e
  | row _ rest => rest.fault?

/-- What someone gets to know who asks for all rows. -/
def outcome (f : Flow) : Outcome (List Binding) :=
  match f.fault? with
  | some e => .failed e
  | none => .value f.rows

/-! ## One flow after another -/

/-- A flow and, once it has ended, another one. -/
def append : Flow → Flow → Flow
  | done, g => g
  | fail e, _ => fail e
  | row b rest, g => row b (rest.append g)

instance : Append Flow := ⟨append⟩

/-- A flow for each row of a flow. -/
def bind : Flow → (Binding → Flow) → Flow
  | done, _ => done
  | fail e, _ => fail e
  | row b rest, k => k b ++ rest.bind k

/-- Some rows for each row of a flow. -/
def expand (f : Flow) (k : Binding → List Binding) : Flow := f.bind fun b => ofRows (k b)

/-- The rows of a flow that pass a test. -/
def filter (f : Flow) (keep : Binding → Bool) : Flow := f.expand fun b => if keep b then [b] else []

/-- One flow for each item of a list. -/
def overAll {α : Type} : List α → (α → Flow) → Flow
  | [], _ => done
  | a :: rest, k => k a ++ overAll rest k

/-! ## Slices and duplicates -/

/-- A flow without its first rows; at a failure nothing is dropped. -/
def drop : Nat → Flow → Flow
  | 0, f => f
  | n + 1, row _ rest => rest.drop n
  | _ + 1, f => f

/-- Rows after `skip` more have been dropped, at most `remaining` of them. -/
def slice : Nat → Option Nat → Flow → Flow
  | _, some 0, _ => done
  | _, _, done => done
  | _, _, fail e => fail e
  | skip + 1, remaining, row _ rest => rest.slice skip remaining
  | 0, some (n + 1), row b rest => row b (rest.slice 0 (some n))
  | 0, none, row b rest => row b (rest.slice 0 none)

/-- The rows that are not among those seen, once each, as long as no more than `m` are seen. -/
def distinct (m : Nat) : List Binding → Flow → Flow
  | _, done => done
  | _, fail e => fail e
  | seen, row b rest =>
    if seen.contains b then rest.distinct m seen
    else if exceeds (seen.length + 1) m then fail (.tooLarge (seen.length + 1) m)
    else row b (rest.distinct m (b :: seen))

/-! ## Buffers -/

/-- The rows of a flow while it is buffered by someone who has `size` rows already. -/
def limit (m : Nat) : Nat → Flow → Flow
  | _, done => done
  | _, fail e => fail e
  | size, row b rest =>
    if exceeds (size + 1) m then fail (.tooLarge (size + 1) m) else row b (rest.limit m (size + 1))

/-- What is made of all rows of a flow together, behind those gathered so far. -/
def gather (m : Nat) (k : List Binding → Flow) : List Binding → Flow → Flow
  | seen, done => k seen
  | _, fail e => fail e
  | seen, row b rest =>
    if exceeds (seen.length + 1) m then fail (.tooLarge (seen.length + 1) m)
    else rest.gather m k (seen ++ [b])

/-! ## Joins -/

/-- What a join makes of a left row and the right rows that are left to try. -/
def tryRows (kind : JoinKind) (condition : Option Expr) (left : Binding) :
    Bool → List Binding → List Binding
  | matched, [] => if kind = .left ∧ !matched then [left] else []
  | matched, other :: untried =>
    match left.merge other with
    | .error _ => tryRows kind condition left matched untried
    | .ok merged =>
      if admitsAll condition merged then merged :: tryRows kind condition left true untried
      else tryRows kind condition left matched untried

/-- A nested loop over a left flow and the rows of a right side. An inner join does without its
left side if there are none. -/
def joinWith (kind : JoinKind) (condition : Option Expr) (left : Flow) (right : List Binding) :
    Flow :=
  if kind = .inner ∧ right.isEmpty then done
  else left.expand fun b => tryRows kind condition b false right

/-- A nested-loop join, which gathers its right side first. -/
def join (m : Nat) (kind : JoinKind) (condition : Option Expr) (left right : Flow) : Flow :=
  right.gather m (left.joinWith kind condition) []

/-- What an optional join makes of the probe of a left row. -/
def probe (condition : Option Expr) (left : Binding) : Bool → Flow → Flow
  | matched, done => if matched then done else single left
  | _, fail e => fail e
  | matched, row b rest =>
    if admitsAll condition b then row b (rest.probe condition left true)
    else rest.probe condition left matched

/-! ## Equations -/

@[simp] theorem row_append (b : Binding) (f g : Flow) : row b f ++ g = row b (f ++ g) := rfl

theorem append_done (f : Flow) : f ++ done = f := by
  induction f with
  | done => rfl
  | fail e => rfl
  | row b rest ih => rw [row_append, ih]

theorem append_assoc (f g h : Flow) : f ++ g ++ h = f ++ (g ++ h) := by
  induction f with
  | done => rfl
  | fail e => rfl
  | row b rest ih => rw [row_append, row_append, row_append, ih]

theorem ofRows_append (as bs : List Binding) : ofRows (as ++ bs) = ofRows as ++ ofRows bs := by
  induction as with
  | nil => rfl
  | cons a as ih => rw [List.cons_append, ofRows, ih, ofRows, row_append]

theorem append_bind (f g : Flow) (k : Binding → Flow) : (f ++ g).bind k = f.bind k ++ g.bind k := by
  induction f with
  | done => rfl
  | fail e => rfl
  | row b rest ih => rw [row_append, bind, ih, bind, append_assoc]

theorem bind_bind (f : Flow) (k l : Binding → Flow) :
    (f.bind k).bind l = f.bind fun b => (k b).bind l := by
  induction f with
  | done => rfl
  | fail e => rfl
  | row b rest ih => rw [bind, append_bind, ih, bind]

@[simp] theorem slice_zero (skip : Nat) (f : Flow) : f.slice skip (some 0) = done := by
  cases skip <;> cases f <;> rfl

theorem slice_done (skip : Nat) (remaining : Option Nat) : done.slice skip remaining = done := by
  match skip, remaining with
  | 0, none | _ + 1, none | 0, some 0 | _ + 1, some 0 | 0, some (_ + 1) | _ + 1, some (_ + 1) => rfl

theorem slice_fail {e : ExecError} {skip : Nat} {remaining : Option Nat} (h : remaining ≠ some 0) :
    (fail e).slice skip remaining = fail e := by
  match skip, remaining, h with
  | 0, none, _ | _ + 1, none, _ | 0, some (_ + 1), _ | _ + 1, some (_ + 1), _ => rfl

theorem slice_succ_row {b : Binding} {f : Flow} {skip : Nat} {remaining : Option Nat}
    (h : remaining ≠ some 0) :
    (row b f).slice (skip + 1) remaining = f.slice skip remaining := by
  match remaining, h with
  | none, _ | some (_ + 1), _ => rfl

@[simp] theorem rows_ofRows (bs : List Binding) : (ofRows bs).rows = bs := by
  induction bs with
  | nil => rfl
  | cons b bs ih => rw [ofRows, rows, ih]

@[simp] theorem fault?_ofRows (bs : List Binding) : (ofRows bs).fault? = none := by
  induction bs with
  | nil => rfl
  | cons b bs ih => rw [ofRows, fault?, ih]

@[simp] theorem outcome_ofRows (bs : List Binding) : (ofRows bs).outcome = .value bs := by
  unfold outcome
  rw [fault?_ofRows, rows_ofRows]

theorem rows_ofRows_append (bs : List Binding) (f : Flow) :
    (ofRows bs ++ f).rows = bs ++ f.rows := by
  induction bs with
  | nil => rfl
  | cons b bs ih => exact congrArg (b :: ·) ih

theorem length_ofRows_append (bs : List Binding) (f : Flow) :
    (ofRows bs ++ f).rows.length = bs.length + f.rows.length := by
  rw [rows_ofRows_append, List.length_append]

theorem fault?_ofRows_append (bs : List Binding) (f : Flow) :
    (ofRows bs ++ f).fault? = f.fault? := by
  induction bs with
  | nil => rfl
  | cons b bs ih => exact ih

theorem ofRows_expand (bs : List Binding) (k : Binding → List Binding) :
    (ofRows bs).expand k = ofRows (bs.flatMap k) := by
  induction bs with
  | nil => rfl
  | cons b bs ih =>
    rw [List.flatMap_cons, ofRows_append, ← ih]
    rfl

theorem expand_row (b : Binding) (f : Flow) (k : Binding → List Binding) :
    (row b f).expand k = ofRows (k b) ++ f.expand k := rfl

/-- A filter as a list for each row. -/
theorem filter_eq_flatMap (keep : Binding → Bool) (bs : List Binding) :
    bs.filter keep = bs.flatMap fun b => if keep b then [b] else [] := by
  induction bs with
  | nil => rfl
  | cons b bs ih =>
    rw [List.flatMap_cons, ← ih]
    by_cases hb : keep b
    · rw [List.filter_cons_of_pos hb, if_pos hb, List.singleton_append]
    · rw [List.filter_cons_of_neg hb, if_neg hb, List.nil_append]

theorem rows_expand (f : Flow) (k : Binding → List Binding) :
    (f.expand k).rows = f.rows.flatMap k := by
  induction f with
  | done => rfl
  | fail e => rfl
  | row b rest ih => rw [expand_row, rows_ofRows_append, ih, rows, List.flatMap_cons]

theorem expand_congr {f : Flow} {k l : Binding → List Binding} (h : ∀ b ∈ f.rows, k b = l b) :
    f.expand k = f.expand l := by
  induction f with
  | done => rfl
  | fail e => rfl
  | row b rest ih =>
    have hrest := ih fun m hm => h m (List.mem_cons_of_mem b hm)
    rw [expand_row, expand_row, h b List.mem_cons_self, hrest]

theorem expand_expand (f : Flow) (k l : Binding → List Binding) :
    (f.expand k).expand l = f.expand fun b => (k b).flatMap l := by
  unfold expand
  rw [bind_bind]
  exact congrArg f.bind (funext fun b => ofRows_expand (k b) l)

end Flow

end TripleQuery
