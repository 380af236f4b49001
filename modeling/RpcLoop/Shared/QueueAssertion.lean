import RpcLoop.Shared.QueueFifo

/-! Whether `size()` guards `pop()`. A push counts its value before it links the
node; a consumer that sees the counter in between finds nothing behind the dummy
and ends the program. -/

namespace RpcLoop.Shared

open Foundation

universe u

/-- A queue with its only consumer, which has seen `size() > 0` or not. -/
structure GuardedQueue (α : Type u) where
  queue : LinkedQueue α
  observed : Bool

namespace GuardedQueue

open LinkedQueue PushSection PopSection

variable {α : Type u}

def start [Inhabited α] : GuardedQueue α where
  queue := .new
  observed := false

inductive Event (α : Type u) where
  | queue (event : LinkedQueue.Event α)
  | size

/-- The consumer asks for the size between two calls of `pop`, and calls `pop`
only once for every positive answer. -/
def step [Inhabited α] (s : GuardedQueue α) : Event α → Option (GuardedQueue α)
  | .size =>
    if s.queue.fault.isNone ∧ s.queue.popping.isNone then
      some { s with observed := decide (0 < s.queue.size) }
    else none
  | .queue .lockPop =>
    if s.observed then do
      let queue ← s.queue.step .lockPop
      return { queue := queue, observed := false }
    else none
  | .queue event => do
    let queue ← s.queue.step event
    return { s with queue := queue }

def machine [Inhabited α] : Machine (GuardedQueue α) (Event α) where
  step := step

/-- The assertion of `pop` has not failed. -/
def NotAsserted (s : GuardedQueue α) : Prop := s.queue.fault ≠ some .assertion

/-- A pop tests for an empty queue only when the value of a push between
`++size_` and `tail_->next = node` is not the only one. -/
def TestsLinked (s : GuardedQueue α) (event : Event α) (_ : GuardedQueue α) : Prop :=
  event = .queue .pop → s.queue.popping = some .locked →
    ∀ node val, s.queue.pushing = some (.counted node val) → s.queue.queued.length ≠ 1

/-- Between two calls of `pop` the counter exceeds the linked nodes by the push
that has counted its value and not linked it. -/
def CountsAhead (s : GuardedQueue α) : Prop :=
  s.queue.popping = none → ∃ front nodes, s.queue.head = some front ∧
    s.queue.heap.Chain front nodes ∧
    s.queue.size = Int32.ofNat (nodes.length + ahead s.queue.pushing)

instance (s : GuardedQueue α) : Decidable (NotAsserted s) :=
  inferInstanceAs (Decidable (_ ≠ _))

/-- What the consumer knows: a value has been counted and not popped. -/
def Known (s : GuardedQueue α) : Prop :=
  s.observed = true ∨ s.queue.popping = some .locked →
    uncounted s.queue.pushing < s.queue.queued.length

/-- What such runs keep. -/
structure Guarded (s : GuardedQueue α) : Prop where
  shaped : Shaped s.queue
  known : Known s
  between : s.observed = true → s.queue.popping = none
  safe : NotAsserted s

variable {q next : LinkedQueue α} {front : Nat} {nodes : List Nat}

/-! ### The test of a pop -/

private theorem fault_step [Inhabited α] {event : LinkedQueue.Event α}
    (taken : LinkedQueue.machine.step q event = some next)
    (other : event = .pop → q.popping ≠ some .locked) : next.fault ≠ some .assertion := by
  obtain ⟨running, effect⟩ := effect_of_step taken
  cases effect with
  | silent event silent =>
    rcases silent.fault with same | dangling
    · simp [same, running]
    · simp [dangling]
  | entered caller p val locked entered returned popping fault => simp [fault, running]
  | started free same => simp [same, running]
  | tested stage entered returned pushing => exact absurd stage (other rfl)
  | returned val stage entered returned popped fault => simp [fault, running]

private theorem test_fault [Inhabited α] (shape : Shape q front nodes)
    (stage : q.popping = some .locked)
    (taken : LinkedQueue.machine.step q .pop = some next) :
    next.fault = some .assertion ↔ nodes = [] := by
  have start : q.head = some front := by
    have first := shape.first
    rw [stage] at first
    exact first
  obtain ⟨node, found, behind⟩ := shape.chain.start
  simp only [LinkedQueue.machine, LinkedQueue.step] at taken
  split at taken
  · cases taken
  · rename_i running
    have none : q.fault = none := by simpa using running
    simp only [pop, stage, start, deref, found, behind, List.head?_eq_none_iff,
      Option.some.injEq] at taken
    subst taken
    by_cases empty : nodes = []
    · simp [empty]
    · simp [empty, none]

private theorem length_waiting (pushing : Option (PushSection α)) :
    (waiting pushing).length = uncounted pushing + ahead pushing := by
  cases pushing with
  | none => rfl
  | some stage => cases stage <;> rfl

private theorem ahead_cases (pushing : Option (PushSection α)) :
    (∃ node val, pushing = some (.counted node val)) ∧ uncounted pushing = 0 ∧ ahead pushing = 1 ∨
    (¬ ∃ node val, pushing = some (.counted node val)) ∧ ahead pushing = 0 := by
  cases pushing with
  | none => exact .inr ⟨by simp, rfl⟩
  | some stage =>
    cases stage with
    | counted node val => exact .inl ⟨⟨node, val, rfl⟩, rfl, rfl⟩
    | _ => exact .inr ⟨by simp, rfl⟩

theorem length_queued (shape : Shape q front nodes)
    (stage : q.popping = none ∨ q.popping = some .locked) :
    q.queued.length = nodes.length + uncounted q.pushing + ahead q.pushing := by
  have values := Heap.length_values fun p member =>
    shape.chain.allocated p (List.mem_cons_of_mem front member)
  rw [shape.queued_eq, List.length_append, List.length_append, values, length_waiting]
  rcases stage with stage | stage
  · rw [stage]
    simp only [leaving, List.length_nil]
    omega
  · rw [stage]
    simp only [leaving, List.length_nil]
    omega

private theorem empty_iff (shape : Shape q front nodes) (stage : q.popping = some .locked)
    (known : uncounted q.pushing < q.queued.length) :
    nodes = [] ↔ ∃ node val, q.pushing = some (.counted node val) ∧ q.queued.length = 1 := by
  have length := length_queued shape (.inr stage)
  rw [← List.length_eq_zero_iff]
  rcases ahead_cases q.pushing with ⟨⟨node, val, window⟩, none, one⟩ | ⟨outside, none⟩
  · constructor
    · intro empty
      exact ⟨node, val, window, by omega⟩
    · rintro ⟨_, _, _, single⟩
      omega
  · constructor
    · intro empty
      omega
    · rintro ⟨node, val, window, _⟩
      exact absurd ⟨node, val, window⟩ outside

/-! ### What the consumer knows -/

private theorem known_of_size (shape : Shape q front nodes) (stage : q.popping = none)
    (positive : 0 < q.size) : uncounted q.pushing < q.queued.length := by
  have length := length_queued shape (.inl stage)
  have some : nodes.length + ahead q.pushing ≠ 0 := by
    intro none
    have size := shape.size
    rw [stage, none] at size
    rw [size] at positive
    exact absurd positive (by decide)
  omega

private theorem known_step [Inhabited α] {event : LinkedQueue.Event α}
    (taken : LinkedQueue.machine.step q event = some next)
    (stage : q.popping = none ∨ q.popping = some .locked)
    (known : uncounted q.pushing < q.queued.length) :
    uncounted next.pushing < next.queued.length := by
  simp only [queued, List.length_drop] at known ⊢
  cases (effect_of_step taken).2 with
  | silent event silent =>
    have counts := silent.counts
    rw [silent.entered, silent.returned]
    omega
  | started free same =>
    rw [same]
    exact known
  | entered caller p val locked entered returned popping fault =>
    rw [locked, entered, returned, List.length_append]
    simp only [uncounted, List.length_singleton]
    omega
  | tested tests entered returned pushing =>
    rw [entered, returned, pushing]
    exact known
  | returned val moved entered returned popped fault =>
    rcases stage with free | locked
    · cases free.symm.trans moved
    · cases locked.symm.trans moved

private theorem popping_step [Inhabited α] {event : LinkedQueue.Event α}
    (taken : LinkedQueue.machine.step q event = some next) (other : event ≠ .lockPop) :
    (q.popping = none → next.popping = none) ∧
      (next.popping = some .locked → q.popping = some .locked) := by
  cases (effect_of_step taken).2 with
  | silent event silent => exact ⟨silent.idle, silent.tests⟩
  | entered caller p val locked entered returned popping fault =>
    exact ⟨popping.trans, popping.symm.trans⟩
  | started free same => exact absurd rfl other
  | tested stage entered returned pushing =>
    refine ⟨fun free => ?_, fun _ => stage⟩
    cases stage.symm.trans free
  | returned val stage entered returned popped fault =>
    constructor
    · intro free
      cases stage.symm.trans free
    · intro locked
      cases popped.symm.trans locked

/-! ### The consumer -/

variable {s after : GuardedQueue α}

theorem step_cases [Inhabited α] {event : Event α} (taken : machine.step s event = some after) :
    (event = .size ∧ s.queue.popping = none ∧
      after = { s with observed := decide (0 < s.queue.size) }) ∨
    (event = .queue .lockPop ∧ s.observed = true ∧
      ∃ queue, LinkedQueue.machine.step s.queue .lockPop = some queue ∧
        after = { queue := queue, observed := false }) ∨
    (∃ inner queue, event = .queue inner ∧ inner ≠ .lockPop ∧
      LinkedQueue.machine.step s.queue inner = some queue ∧ after = { s with queue := queue }) := by
  cases event with
  | size =>
    simp only [machine, GuardedQueue.step] at taken
    split at taken
    · rename_i idle
      cases taken
      exact .inl ⟨rfl, by simpa using idle.2, rfl⟩
    · cases taken
  | queue inner =>
    right
    cases inner with
    | lockPop =>
      simp only [machine, GuardedQueue.step] at taken
      split at taken
      · rename_i observed
        simp only [Option.bind_eq_bind, Option.bind_eq_some_iff, Option.pure_def,
          Option.some.injEq] at taken
        obtain ⟨queue, moved, same⟩ := taken
        exact .inl ⟨rfl, observed, queue, moved, same.symm⟩
      · cases taken
    | _ =>
      right
      simp only [machine, GuardedQueue.step, Option.bind_eq_bind, Option.bind_eq_some_iff,
        Option.pure_def, Option.some.injEq] at taken
      obtain ⟨queue, moved, same⟩ := taken
      exact ⟨_, queue, rfl, by simp, moved, same.symm⟩

theorem Guarded.initial [Inhabited α] : Guarded (start : GuardedQueue α) where
  shaped := ⟨0, [], .initial⟩
  known knows := by
    rcases knows with observed | locked
    · cases observed
    · cases locked
  between observed := by cases observed
  safe := by simp [NotAsserted, start, LinkedQueue.new]

theorem Guarded.step [Inhabited α] {event : Event α} (guarded : Guarded s)
    (taken : machine.step s event = some after) (safe : NotAsserted after) : Guarded after := by
  obtain ⟨front, nodes, shape⟩ := guarded.shaped
  rcases step_cases taken with ⟨rfl, free, rfl⟩ | ⟨rfl, observed, queue, moved, rfl⟩ |
    ⟨inner, queue, rfl, other, moved, rfl⟩
  · refine ⟨guarded.shaped, ?_, fun _ => free, safe⟩
    rintro (positive | locked)
    · exact known_of_size shape free (by simpa using positive)
    · cases free.symm.trans locked
  · refine ⟨guarded.shaped.step moved, ?_, fun knows => (by cases knows), safe⟩
    rintro (knows | locked)
    · cases knows
    · exact known_step moved (.inl (guarded.between observed)) (guarded.known (.inl observed))
  · obtain ⟨idle, tests⟩ := popping_step moved other
    refine ⟨guarded.shaped.step moved, ?_, fun knows => idle (guarded.between knows), safe⟩
    rintro (observed | locked)
    · exact known_step moved (.inl (guarded.between observed)) (guarded.known (.inl observed))
    · exact known_step moved (.inr (tests locked)) (guarded.known (.inr (tests locked)))

/-- A pop fails its assertion exactly when the only value is one that a push has
counted and not linked. -/
theorem Guarded.notAsserted_iff [Inhabited α] {event : Event α} (guarded : Guarded s)
    (taken : machine.step s event = some after) :
    NotAsserted after ↔ TestsLinked s event after := by
  rcases step_cases taken with ⟨rfl, free, rfl⟩ | ⟨rfl, observed, queue, moved, rfl⟩ |
    ⟨inner, queue, rfl, other, moved, rfl⟩
  · exact ⟨fun _ same => (by cases same), fun _ => guarded.safe⟩
  · exact ⟨fun _ same => (by cases same), fun _ => fault_step moved (by simp)⟩
  · by_cases tests : inner = .pop ∧ s.queue.popping = some .locked
    · obtain ⟨rfl, stage⟩ := tests
      obtain ⟨front, nodes, shape⟩ := guarded.shaped
      have empty := empty_iff shape stage (guarded.known (.inr stage))
      rw [NotAsserted, ne_eq, test_fault shape stage moved, empty]
      constructor
      · intro none _ _ node val window single
        exact none ⟨node, val, window, single⟩
      · rintro linked ⟨node, val, window, single⟩
        exact linked rfl stage node val window single
    · have safe := fault_step moved fun same stage => tests ⟨same, stage⟩
      refine ⟨fun _ same stage => ?_, fun _ => safe⟩
      cases same
      exact absurd ⟨rfl, stage⟩ tests

theorem Shaped.countsAhead (shaped : Shaped s.queue) : CountsAhead s := by
  obtain ⟨front, nodes, shape⟩ := shaped
  intro free
  have first := shape.first
  have size := shape.size
  rw [free] at first size
  exact ⟨front, nodes, first, shape.chain, size⟩

/-- No pop fails its assertion in exactly the runs in which every pop tests
outside that window; between pops the counter is ahead of the list only by a push
in the window. -/
theorem neverAsserts_iff_testsLinked [Inhabited α] (schedule : List (Event α)) :
    (machine.Always NotAsserted start schedule ↔ machine.AllSteps TestsLinked start schedule) ∧
      machine.Always CountsAhead start schedule := by
  constructor
  · apply Machine.always_iff Guarded
    · exact fun guarded => guarded.safe
    · exact fun guarded taken => guarded.notAsserted_iff taken
    · intro before event after guarded taken tests
      exact guarded.step taken ((guarded.notAsserted_iff taken).mpr tests)
    · exact .initial
  · apply Machine.always_of_invariant fun s => Shaped s.queue
    · exact fun shaped => Shaped.countsAhead shaped
    · intro before event after shaped taken
      rcases step_cases taken with ⟨rfl, free, rfl⟩ | ⟨rfl, observed, queue, moved, rfl⟩ |
        ⟨inner, queue, rfl, other, moved, rfl⟩
      · exact shaped
      · exact shaped.step moved
      · exact shaped.step moved
    · exact ⟨0, [], .initial⟩

/-- A producer stops behind `++size_`; the consumer sees a size of one and pops. -/
def countedFirst : List (Event Nat) :=
  [.queue (.newNode 7), .queue (.setVal 0), .queue (.setNext 0), .queue (.lockPush 0),
    .queue .push, .size, .queue .lockPop, .queue .pop]

/-- The assertion ends the program. -/
theorem countedFirst_asserts : ¬ machine.Always NotAsserted start countedFirst := by
  decide +kernel

end GuardedQueue

end RpcLoop.Shared
