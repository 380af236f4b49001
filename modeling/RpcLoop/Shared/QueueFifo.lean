import RpcLoop.Shared.QueueShape

/-! `SafeQueue` is a concurrent first-in first-out queue. Taking `h_lock_` and
returning the value are the moments at which a push and a pop take effect; seen
from there every interleaving is a run of the queue with atomic calls. The
counter is an `int`, which wraps when 2^31 values are queued. -/

namespace RpcLoop.Shared.LinkedQueue

open Foundation PushSection PopSection

universe u

variable {α : Type u} {q next : LinkedQueue α}

/-- The values that have been pushed and not returned. -/
def queued (q : LinkedQueue α) : List α := q.entered.drop q.returned.length

/-- The queue as the atomic calls see it. -/
def contents (q : LinkedQueue α) : SafeQueue α where
  head := q.returned.getLast?
  items := q.queued

/-- The queue holds no more values than an `int` can count. -/
def Countable (q : LinkedQueue α) : Prop := q.queued.length < 2 ^ 31

/-- Values leave in the order they came, no deleted node is followed, and where
the queue is countable its counter is right. -/
structure Fifo (countable : LinkedQueue α → Prop) (q : LinkedQueue α) : Prop where
  order : q.returned <+: q.entered
  safe : q.fault ≠ some .dangling
  nonneg : countable q → 0 ≤ q.size
  count : countable q → q.pushing = none → q.popping = none → q.size.toInt = q.queued.length

/-- What one statement does to the queue of the atomic calls. -/
inductive Linearizes (q next : LinkedQueue α) : Prop where
  | quiet (same : next.contents = q.contents)
  | pushed (val : α) (moved : next.contents = q.contents.push val)
  | popped (val : α) (moved : q.contents.pop = some (val, next.contents))

/-! ### The counter -/

theorem Shape.order {front : Nat} {nodes : List Nat} (shape : Shape q front nodes) :
    q.returned <+: q.entered := by
  rw [shape.values, List.append_assoc, List.append_assoc]
  exact List.prefix_append _ _

theorem Shape.queued_eq {front : Nat} {nodes : List Nat} (shape : Shape q front nodes) :
    q.queued = leaving q.heap front q.popping ++ q.heap.values nodes ++ waiting q.pushing := by
  rw [queued, shape.values, List.append_assoc, List.append_assoc, List.drop_left,
    List.append_assoc]

private theorem ahead_le (pushing : Option (PushSection α)) :
    ahead pushing ≤ (waiting pushing).length := by
  cases pushing with
  | none => exact Nat.zero_le _
  | some stage =>
    cases stage with
    | counted node val => exact Nat.le_refl 1
    | _ => exact Nat.zero_le _

theorem Shape.counted_le {front : Nat} {nodes : List Nat} (shape : Shape q front nodes) :
    nodes.length + ahead q.pushing - behind q.popping ≤ q.queued.length := by
  have values := Heap.length_values fun p member =>
    shape.chain.allocated p (List.mem_cons_of_mem front member)
  have waits := ahead_le q.pushing
  rw [shape.queued_eq, List.length_append, List.length_append, values]
  omega

private theorem toInt_ofNat {n : Nat} (small : n < 2 ^ 31) : (Int32.ofNat n).toInt = n :=
  Int32.toInt_ofNat_of_lt small

theorem Shape.fifo {front : Nat} {nodes : List Nat} (shape : Shape q front nodes) :
    Fifo Countable q where
  order := shape.order
  safe := shape.safe
  nonneg countable := by
    have small := Nat.lt_of_le_of_lt shape.counted_le countable
    rw [Int32.le_iff_toInt_le, shape.size, toInt_ofNat small]
    exact Int.natCast_nonneg _
  count countable unpushed unpopped := by
    have small := Nat.lt_of_le_of_lt shape.counted_le countable
    have values := Heap.length_values fun p member =>
      shape.chain.allocated p (List.mem_cons_of_mem front member)
    rw [shape.size, toInt_ofNat small, shape.queued_eq, unpushed, unpopped]
    simp [leaving, waiting, ahead, behind, values]

/-! ### Linearization -/

/-- A statement that takes no lock, does not test for an empty queue and returns no value. -/
structure Silent (q next : LinkedQueue α) : Prop where
  entered : next.entered = q.entered
  returned : next.returned = q.returned
  counts : uncounted next.pushing ≤ uncounted q.pushing
  idle : q.popping = none → next.popping = none
  tests : next.popping = some .locked → q.popping = some .locked
  fault : next.fault = q.fault ∨ next.fault = some .dangling

/-- What a statement does to the record of the calls. A push enters it when it
takes its lock, a pop when it returns its value. -/
inductive Effect (q next : LinkedQueue α) : Event α → Prop where
  | silent (event : Event α) (silent : Silent q next) : Effect q next event
  | entered (caller p : Nat) (val : α) (locked : next.pushing = some (.locked p val))
      (entered : next.entered = q.entered ++ [val]) (returned : next.returned = q.returned)
      (popping : next.popping = q.popping) (fault : next.fault = q.fault) :
      Effect q next (.lockPush caller)
  | started (free : q.popping = none)
      (same : next = { q with popping := some .locked }) : Effect q next .lockPop
  | tested (stage : q.popping = some .locked) (entered : next.entered = q.entered)
      (returned : next.returned = q.returned) (pushing : next.pushing = q.pushing) :
      Effect q next .pop
  | returned (val : α) (stage : q.popping = some .moved) (entered : next.entered = q.entered)
      (returned : next.returned = q.returned ++ [val]) (popped : next.popping = some .valued)
      (fault : next.fault = q.fault) : Effect q next .pop

/-- A statement that touches no record. -/
theorem silent_of_same (entered : next.entered = q.entered) (returned : next.returned = q.returned)
    (counts : uncounted next.pushing ≤ uncounted q.pushing) (popping : next.popping = q.popping)
    (fault : next.fault = q.fault ∨ next.fault = some .dangling) : Silent q next :=
  ⟨entered, returned, counts, popping.trans, popping.symm.trans, fault⟩

private theorem silent_of_tested {stage : PopSection} (entered : next.entered = q.entered)
    (returned : next.returned = q.returned) (pushing : next.pushing = q.pushing)
    (before : q.popping = some stage) (after : next.popping ≠ some .locked)
    (fault : next.fault = q.fault) : Silent q next where
  entered := entered
  returned := returned
  counts := Nat.le_of_eq (congrArg uncounted pushing)
  idle free := by cases before.symm.trans free
  tests locked := absurd locked after
  fault := .inl fault

theorem silent_deref {p : Option Nat} {use : Nat → Node α → LinkedQueue α}
    (silent : ∀ address node, Silent q (use address node)) : Silent q (q.deref p use) := by
  unfold deref
  split
  · exact silent_of_same rfl rfl (Nat.le_refl _) rfl (.inr rfl)
  · split
    · exact silent_of_same rfl rfl (Nat.le_refl _) rfl (.inr rfl)
    · exact silent _ _

private theorem silent_setVal {caller : Nat} (taken : q.setVal caller = some next) :
    Silent q next := by
  unfold setVal at taken
  split at taken
  · cases taken
    exact silent_deref fun _ _ => silent_of_same rfl rfl (Nat.le_refl _) rfl (.inl rfl)
  · cases taken

private theorem silent_setNext {caller : Nat} (taken : q.setNext caller = some next) :
    Silent q next := by
  unfold setNext at taken
  split at taken
  · cases taken
    exact silent_deref fun _ _ => silent_of_same rfl rfl (Nat.le_refl _) rfl (.inl rfl)
  · cases taken

private theorem silent_push (taken : q.push = some next) : Silent q next := by
  unfold push at taken
  split at taken
  · cases taken
  · cases taken
    exact silent_of_same rfl rfl (Nat.zero_le _) rfl (.inl rfl)
  · cases taken
    exact silent_deref fun _ _ => silent_of_same rfl rfl (Nat.zero_le _) rfl (.inl rfl)
  · cases taken
    exact silent_of_same rfl rfl (Nat.zero_le _) rfl (.inl rfl)
  · cases taken
    exact silent_of_same rfl rfl (Nat.zero_le _) rfl (.inl rfl)

private theorem pop_effect (taken : q.pop = some next) : Effect q next .pop := by
  unfold pop at taken
  split at taken
  · cases taken
  · rename_i stage
    cases taken
    unfold deref
    split
    · exact .tested stage rfl rfl rfl
    · split
      · exact .tested stage rfl rfl rfl
      · dsimp only
        split
        · exact .tested stage rfl rfl rfl
        · exact .tested stage rfl rfl rfl
  · rename_i stage
    cases taken
    exact .silent _ (silent_of_tested rfl rfl rfl stage (by simp) rfl)
  · rename_i stage
    cases taken
    exact .silent _ (silent_deref fun _ _ => silent_of_tested rfl rfl rfl stage (by simp) rfl)
  · rename_i stage
    cases taken
    exact .silent _ (silent_deref fun _ _ => silent_of_tested rfl rfl rfl stage (by simp) rfl)
  · rename_i stage
    cases taken
    exact .silent _ (silent_of_tested rfl rfl rfl stage (by simp) rfl)
  · rename_i stage
    cases taken
    unfold deref
    split
    · exact .silent _ (silent_of_same rfl rfl (Nat.le_refl _) rfl (.inr rfl))
    · split
      · exact .silent _ (silent_of_same rfl rfl (Nat.le_refl _) rfl (.inr rfl))
      · rename_i node found
        exact .returned node.val stage rfl rfl rfl rfl
  · rename_i stage
    cases taken
    exact .silent _ (silent_of_tested rfl rfl rfl stage (by simp) rfl)

/-- A statement is executed while nothing has gone wrong. -/
theorem effect_of_step [Inhabited α] {event : Event α}
    (taken : machine.step q event = some next) : q.fault = none ∧ Effect q next event := by
  simp only [machine, LinkedQueue.step] at taken
  split at taken
  · cases taken
  · rename_i running
    refine ⟨by simpa using running, ?_⟩
    cases event with
    | newNode val =>
      cases taken
      exact .silent _ (silent_of_same rfl rfl (Nat.le_refl _) rfl (.inl rfl))
    | setVal caller => exact .silent _ (silent_setVal taken)
    | setNext caller => exact .silent _ (silent_setNext taken)
    | lockPush caller =>
      simp only [lockPush] at taken
      split at taken
      · rename_i p val stage free
        cases taken
        exact .entered caller p val rfl rfl rfl rfl rfl
      · cases taken
    | push => exact .silent _ (silent_push taken)
    | lockPop =>
      simp only [lockPop] at taken
      split at taken
      · rename_i free
        cases taken
        exact .started free rfl
      · cases taken
    | pop => exact pop_effect taken

theorem Shaped.linearizes [Inhabited α] {event : Event α} (shaped : Shaped q)
    (taken : machine.step q event = some next) : Linearizes q next := by
  obtain ⟨front, nodes, shape⟩ := shaped
  obtain ⟨front', nodes', after⟩ := Shaped.step ⟨front, nodes, shape⟩ taken
  have still (entered : next.entered = q.entered) (returned : next.returned = q.returned) :
      next.contents = q.contents := by
    rw [contents, queued, entered, returned]
    rfl
  cases (effect_of_step taken).2 with
  | silent event silent => exact .quiet (still silent.entered silent.returned)
  | started free same => exact .quiet (still (by rw [same]) (by rw [same]))
  | tested stage entered returned pushing => exact .quiet (still entered returned)
  | entered caller p val locked entered returned popping fault =>
    refine .pushed val ?_
    rw [contents, queued, entered, returned, List.drop_append_of_le_length shape.order.length_le]
    rfl
  | returned val stage entered returned popped fault =>
    refine .popped val ?_
    obtain ⟨rest, whole⟩ := after.order
    rw [returned, entered] at whole
    have before : q.queued = val :: rest := by
      rw [queued, ← whole, List.append_assoc, List.drop_left]
      rfl
    have later : next.queued = rest := by
      rw [queued, returned, entered, ← whole, List.drop_left]
    simp [SafeQueue.pop, contents, before, later, returned]

/-- In every interleaving of the statements of any number of pushes and pops. -/
theorem fifo_always [Inhabited α] (schedule : List (Event α)) :
    machine.Always (Fifo Countable) new schedule := by
  apply Machine.always_of_invariant Shaped
  · rintro q ⟨front, nodes, shape⟩
    exact shape.fifo
  · exact fun shaped taken => shaped.step taken
  · exact ⟨0, [], .initial⟩

/-- Each statement leaves the queue of the atomic calls alone, or is one of them. -/
theorem linearizes_always [Inhabited α] (schedule : List (Event α)) :
    machine.AllSteps (fun q _ next => Linearizes q next) new schedule := by
  refine Machine.allSteps_of_invariant Shaped ?_ ⟨0, [], .initial⟩ schedule
  exact fun shaped taken => ⟨shaped.linearizes taken, shaped.step taken⟩

/-! ### The limit of the counter -/

/-- One push from its first statement to its last, while no other call is in progress. -/
def wholePush (val : α) : List (Event α) :=
  [.newNode val, .setVal 0, .setNext 0, .lockPush 0, .push, .push, .push, .push]

/-- As many pushes, one after the other. -/
def pushes (val : α) : Nat → List (Event α)
  | 0 => []
  | count + 1 => pushes val count ++ wholePush val

/-- No call is in progress and nothing went wrong. -/
structure Idle (q : LinkedQueue α) : Prop where
  shaped : Shaped q
  starting : q.starting = []
  pushing : q.pushing = none
  popping : q.popping = none
  fault : q.fault = none

private theorem wholePush_run [Inhabited α] (idle : Idle q) (val : α) :
    ∃ next, machine.run q (wholePush val) = some next ∧ Idle next ∧ next.size = q.size + 1 := by
  obtain ⟨front, nodes, shape⟩ := idle.shaped
  have ends : (front :: nodes).getLast? = q.tail := by
    rw [shape.last, idle.pushing]
    rfl
  obtain ⟨last, same⟩ : ∃ last, q.tail = some last := by
    cases tail : q.tail with
    | none => simp [tail] at ends
    | some last => exact ⟨last, rfl⟩
  rw [same] at ends
  obtain ⟨node, found⟩ := shape.chain.allocated last (List.mem_of_getLast? ends)
  have other : last ≠ q.allocated := Nat.ne_of_lt (shape.fresh last node found)
  have runs : ∃ next, machine.run q (wholePush val) = some next ∧ next.starting = [] ∧
      next.pushing = none ∧ next.popping = none ∧ next.fault = none ∧
      next.size = q.size + 1 := by
    simp [wholePush, Machine.run, machine, LinkedQueue.step, LinkedQueue.newNode, setVal, setNext,
      LinkedQueue.lockPush, push, deref, store, idle.starting, idle.pushing, idle.popping,
      idle.fault, same, found, other]
  obtain ⟨next, reached, starting, pushing, popping, fault, size⟩ := runs
  have later : Shaped next :=
    Machine.Reaches.invariant (fun shaped taken => shaped.step taken) idle.shaped ⟨_, reached⟩
  exact ⟨next, reached, ⟨later, starting, pushing, popping, fault⟩, size⟩

private theorem pushes_run [Inhabited α] (val : α) (count : Nat) :
    ∃ q, machine.run new (pushes val count) = some q ∧ Idle q ∧ q.size = Int32.ofNat count := by
  induction count with
  | zero => exact ⟨new, rfl, ⟨⟨0, [], .initial⟩, rfl, rfl, rfl, rfl⟩, rfl⟩
  | succ count ih =>
    obtain ⟨q, reached, idle, size⟩ := ih
    obtain ⟨next, moved, later, counted⟩ := wholePush_run idle val
    refine ⟨next, ?_, later, ?_⟩
    · rw [pushes, Machine.run_append, reached, Option.bind_some, moved]
    · rw [counted, size, Int32.ofNat_add]
      rfl

private theorem negative_of_pushes {count : Nat} (wrapped : Int32.ofNat count < 0) :
    ¬ machine.Always (Fifo fun _ => True) (new : LinkedQueue Nat) (pushes 0 count) := by
  intro always
  obtain ⟨q, reached, idle, size⟩ := pushes_run 0 count
  have nonneg := (always.final reached).nonneg trivial
  rw [size] at nonneg
  exact absurd nonneg (Int32.not_le.mpr wrapped)

/-- After 2^31 pushes without a pop the counter is negative. -/
theorem pushes_negative :
    ¬ machine.Always (Fifo fun _ => True) (new : LinkedQueue Nat) (pushes 0 (2 ^ 31)) :=
  negative_of_pushes (by decide)

end RpcLoop.Shared.LinkedQueue
