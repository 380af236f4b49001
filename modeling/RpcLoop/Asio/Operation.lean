import RpcLoop.Foundation.Machine

/-! Asynchronous operations on a socket, from their start until their handler
is invoked. -/

namespace RpcLoop.Asio

open Foundation

/-- An operation is in progress, has succeeded with its handler queued, or was
ended by the closing of its socket with its handler queued. An operation in
progress may also fail by itself, which invokes its handler with the error. -/
inductive Completion where
  | live
  | done
  | aborted
  deriving DecidableEq, Repr

/-- One operation, with the number of the connection attempt it was started on. -/
structure Operation (α : Type) where
  what : α
  conn : Nat
  state : Completion

namespace Operation

variable {α : Type}

/-- `close()` ends what is in progress; a handler already queued keeps its result. -/
def abort (op : Operation α) : Operation α :=
  match op.state with
  | .live => { op with state := .aborted }
  | _ => op

/-- The results its handler can be invoked with. -/
def Delivers (op : Operation α) (error : Bool) : Prop :=
  if error then op.state ≠ .done else op.state = .done

instance (op : Operation α) (error : Bool) : Decidable (op.Delivers error) :=
  inferInstanceAs (Decidable (if error then op.state ≠ .done else op.state = .done))

/-- Every outstanding operation has a result its handler can be invoked with. -/
theorem exists_delivers (op : Operation α) : ∃ error, op.Delivers error := by
  by_cases done : op.state = .done
  · exact ⟨false, done⟩
  · exact ⟨true, done⟩

/-- Closing the socket does not change whether a handler gets an error. -/
theorem delivers_abort (op : Operation α) (error : Bool) :
    op.abort.Delivers error ↔ op.Delivers error := by
  cases op with
  | mk what conn state => cases state <;> simp [abort, Delivers]

theorem aborted_of_ended {op : Operation α} (ended : op.state ≠ .live) (failed : op.state ≠ .done) :
    op.state = .aborted := by
  cases state : op.state with
  | live => exact absurd state ended
  | done => exact absurd state failed
  | aborted => rfl

/-- The operation belongs to the connection and was not ended by its closing. -/
def on (conn : Nat) (op : Operation α) : Bool := op.conn == conn && op.state != .aborted

/-- How many operations are outstanding on a connection. -/
def outstanding (conn : Nat) (ops : List (Operation α)) : Nat := ops.countP (on conn)

/-- How many operations are in progress. -/
def inProgress (ops : List (Operation α)) : Nat := ops.countP (·.state == .live)

variable {conn : Nat} {ops : List (Operation α)} {op : Operation α}

@[simp] theorem conn_abort (op : Operation α) : op.abort.conn = op.conn := by
  unfold abort
  split <;> rfl

@[simp] theorem what_abort (op : Operation α) : op.abort.what = op.what := by
  unfold abort
  split <;> rfl

theorem state_abort (op : Operation α) :
    op.abort.state = .done ∧ op.state = .done ∨ op.abort.state = .aborted := by
  unfold abort
  cases op with
  | mk what conn state => cases state <;> simp

@[simp] theorem outstanding_append (first second : List (Operation α)) :
    outstanding conn (first ++ second) = outstanding conn first + outstanding conn second :=
  List.countP_append

@[simp] theorem outstanding_singleton (op : Operation α) :
    outstanding conn [op] = if op.on conn then 1 else 0 := by
  simp [outstanding, List.countP_cons]

private theorem outstanding_eraseIdx (conn : Nat) {index : Nat} (found : ops[index]? = some op) :
    outstanding conn ops =
      outstanding conn (ops.eraseIdx index) + if op.on conn then 1 else 0 :=
  countP_eraseIdx (on conn) found

theorem outstanding_eraseIdx_done {index : Nat} (found : ops[index]? = some op)
    (current : op.conn = conn) (done : op.state = .done) :
    outstanding conn ops = outstanding conn (ops.eraseIdx index) + 1 := by
  have one : op.on conn = true := by simp [on, current, done]
  rw [outstanding_eraseIdx conn found, if_pos one]

theorem outstanding_eraseIdx_le (index : Nat) :
    outstanding conn (ops.eraseIdx index) ≤ outstanding conn ops := by
  exact List.Sublist.countP_le (List.eraseIdx_sublist ops index)

theorem outstanding_abort_le :
    outstanding conn (ops.map abort) ≤ outstanding conn ops := by
  rw [outstanding, List.countP_map]
  apply List.countP_mono_left
  intro op member counted
  simp only [Function.comp, on, conn_abort, Bool.and_eq_true, bne_iff_ne] at counted ⊢
  refine ⟨counted.1, ?_⟩
  rcases op.state_abort with ⟨_, kept⟩ | ended
  · simp [kept]
  · exact absurd ended counted.2

private theorem outstanding_eq_zero (earlier : ∀ op ∈ ops, op.conn < conn) :
    outstanding conn ops = 0 := by
  apply List.countP_eq_zero.mpr
  intro op member
  have different : op.conn ≠ conn := Nat.ne_of_lt (earlier op member)
  simp [on, different]

/-- Marking an operation as done leaves it outstanding. -/
theorem outstanding_set (conn : Nat) {index : Nat} (new : Operation α)
    (found : ops[index]? = some op)
    (same : new.on conn = op.on conn) :
    outstanding conn (ops.set index new) = outstanding conn ops := by
  have moved := countP_replace (on conn) found new
  rw [same] at moved
  exact Nat.add_right_cancel moved

/-- Closing the socket leaves nothing in progress. -/
theorem inProgress_abort (ops : List (Operation α)) : inProgress (ops.map abort) = 0 := by
  apply List.countP_eq_zero.mpr
  intro op member
  obtain ⟨old, _, rfl⟩ := List.mem_map.mp member
  rcases old.state_abort with ⟨done, _⟩ | aborted
  · simp [done]
  · simp [aborted]

theorem state_ne_live (idle : inProgress ops = 0) (member : op ∈ ops) : op.state ≠ .live := by
  have counted := List.countP_eq_zero.mp idle op member
  simpa using counted

theorem inProgress_append (ops : List (Operation α)) (live : op.state = .live) :
    inProgress (ops ++ [op]) = inProgress ops + 1 := by
  simp [inProgress, live]

theorem inProgress_eraseIdx {index : Nat} (found : ops[index]? = some op)
    (ended : op.state ≠ .live) : inProgress (ops.eraseIdx index) = inProgress ops := by
  have fewer := countP_eraseIdx (·.state == .live) found
  simpa [inProgress, ended] using fewer.symm

/-- An operation that succeeds is no longer in progress. -/
theorem inProgress_set {index : Nat} (new : Operation α) (found : ops[index]? = some op)
    (live : op.state = .live) (done : new.state = .done) :
    inProgress (ops.set index new) + 1 = inProgress ops := by
  have moved := countP_replace (·.state == .live) found new
  simpa [inProgress, live, done] using moved

/-- No operation belongs to an attempt that comes after the given one. -/
def Early (conn : Nat) (ops : List (Operation α)) : Prop := ∀ op ∈ ops, op.conn ≤ conn

theorem Early.append (early : Early conn ops) (known : op.conn ≤ conn) :
    Early conn (ops ++ [op]) := by
  intro other member
  rcases List.mem_append.mp member with old | new
  · exact early other old
  · rw [List.mem_singleton.mp new]
    exact known

theorem Early.eraseIdx (early : Early conn ops) (index : Nat) : Early conn (ops.eraseIdx index) :=
  fun other member => early other (List.mem_of_mem_eraseIdx member)

theorem Early.set (early : Early conn ops) {index : Nat} (known : op.conn ≤ conn) :
    Early conn (ops.set index op) := by
  intro other member
  rcases List.mem_or_eq_of_mem_set member with old | new
  · exact early other old
  · rw [new]
    exact known

theorem Early.abort (early : Early conn ops) : Early conn (ops.map Operation.abort) := by
  intro other member
  obtain ⟨op, old, rfl⟩ := List.mem_map.mp member
  rw [conn_abort]
  exact early op old

theorem Early.get (early : Early conn ops) {index : Nat} (found : ops[index]? = some op) :
    op.conn ≤ conn :=
  early op (List.mem_of_getElem? found)

theorem Early.later (early : Early conn ops) : Early (conn + 1) ops :=
  fun other member => Nat.le_succ_of_le (early other member)

/-- Nothing is outstanding on the next attempt. -/
theorem Early.next (early : Early conn ops) : outstanding (conn + 1) ops = 0 :=
  outstanding_eq_zero fun other member => Nat.lt_succ_of_le (early other member)

end Operation

end RpcLoop.Asio
