import RpcLoop.Shared.QueueShape

/-! The memory of a `SafeQueue`. Every node that a push created is linked, still
being prepared, or deleted by the pop that passed it; the destructor deletes the
rest. -/

namespace RpcLoop.Shared

open Foundation PushSection PopSection

universe u

variable {α : Type u}

/-- A pop has deleted the node it passed and not returned the value behind it. -/
def PopSection.returning : Option PopSection → Nat
  | some (.deleted _) => 1
  | some .moved => 1
  | _ => 0

namespace LinkedQueue

/-- `~SafeQueue()`: `erase_` from `head_` on, to the node without a link. -/
def destroy (q : LinkedQueue α) : Option (Heap α) := q.head.bind (q.heap.free q.allocated)

/-- No call is in progress. -/
structure Unused (q : LinkedQueue α) : Prop where
  starting : q.starting = []
  pushing : q.pushing = none
  popping : q.popping = none

/-- Nodes are counted by the values they were created for. -/
def Counted (q : LinkedQueue α) : Prop :=
  (live q.heap q.allocated).card + returning q.popping + q.returned.length =
    1 + q.entered.length + q.starting.length

/-- Every node is in the chain behind `head_`, or the pop in progress has its first
node, or a push has not linked it. -/
def Placed (q : LinkedQueue α) : Prop :=
  ∃ front nodes, q.heap.Chain front nodes ∧ Front q.head front nodes q.popping ∧
    ∀ p node, q.heap p = some node → p ∈ front :: nodes ∨ p ∈ q.cells.map Prod.fst

/-- One node for each value in the queue, one in front of them, and one for each
push that has not taken its lock; each stands where the queue or a push finds it;
and the destructor of an unused queue deletes each of them once. -/
structure LeakFree (q : LinkedQueue α) : Prop where
  safe : q.fault ≠ some .dangling
  counted : Counted q
  placed : q.Placed
  destroyed : Unused q → q.destroy = some fun _ => none

variable {q next : LinkedQueue α} {front : Nat} {nodes : List Nat}

theorem Counted.initial [Inhabited α] : Counted (new : LinkedQueue α) := by
  have empty : live (fun _ => none : Heap α) 0 = ∅ := rfl
  have one := card_live_new (fun _ => none : Heap α) 0 { val := default, next := none }
  rw [empty, Finset.card_empty] at one
  simp only [Counted, new, returning, one, List.length_nil]

/-- A pointer is followed to its node, or the program ends. -/
theorem Counted.deref (counted : Counted q) {p : Option Nat} {use : Nat → Node α → LinkedQueue α}
    (each : ∀ address node, q.heap address = some node → Counted (use address node)) :
    Counted (q.deref p use) := by
  unfold LinkedQueue.deref
  split
  · exact counted
  · split
    · exact counted
    · rename_i found
      exact each _ _ found

theorem Counted.write (counted : Counted q) {p : Nat} {node : Node α}
    (found : q.heap p = some node) (after : Node α) : Counted (q.store p (some after)) := by
  simp only [Counted, store, live_write found]
  exact counted

theorem Counted.pop (counted : Counted q)
    (fresh : ∀ p node, q.heap p = some node → p < q.allocated) (taken : q.pop = some next) :
    Counted next := by
  unfold LinkedQueue.pop at taken
  split at taken
  · cases taken
  · rename_i stage
    cases taken
    refine counted.deref fun address node found => ?_
    split
    · exact counted
    · simpa [Counted, stage, returning] using counted
  · rename_i stage
    cases taken
    simpa [Counted, stage, returning] using counted
  · rename_i stage
    cases taken
    refine counted.deref fun address node found => ?_
    simpa [Counted, stage, returning] using counted
  · rename_i tmp stage
    cases taken
    refine counted.deref fun address node found => ?_
    have deleted := card_live_delete found (fresh address node found)
    simp only [Counted, store, stage, returning] at counted ⊢
    omega
  · rename_i tmp stage
    cases taken
    simpa [Counted, stage, returning] using counted
  · rename_i stage
    cases taken
    refine counted.deref fun address node found => ?_
    simp only [Counted, stage, returning, List.length_append, List.length_singleton] at counted ⊢
    omega
  · rename_i stage
    cases taken
    simpa [Counted, stage, returning] using counted

theorem Counted.step [Inhabited α] {event : Event α} (counted : Counted q)
    (fresh : ∀ p node, q.heap p = some node → p < q.allocated)
    (taken : machine.step q event = some next) : Counted next := by
  simp only [machine, LinkedQueue.step] at taken
  split at taken
  · cases taken
  · cases event with
    | newNode val =>
      cases taken
      have created := card_live_new q.heap q.allocated { val := default, next := none }
      simp only [Counted, newNode, store, created, List.length_append,
        List.length_singleton] at counted ⊢
      omega
    | setVal caller =>
      simp only [setVal] at taken
      split at taken
      · cases taken
        refine counted.deref fun address node found => ?_
        have written := counted.write found
        simp only [Counted, store, List.length_set] at written ⊢
        exact written _
      · cases taken
    | setNext caller =>
      simp only [setNext] at taken
      split at taken
      · cases taken
        refine counted.deref fun address node found => ?_
        have written := counted.write found
        simp only [Counted, store, List.length_set] at written ⊢
        exact written _
      · cases taken
    | lockPush caller =>
      simp only [lockPush] at taken
      split at taken
      · rename_i p val stage free
        cases taken
        have inside := (List.getElem?_eq_some_iff.mp stage).1
        simp only [Counted, List.length_append, List.length_singleton,
          List.length_eraseIdx_of_lt inside] at counted ⊢
        omega
      · cases taken
    | push =>
      simp only [push] at taken
      split at taken
      · cases taken
      · cases taken
        exact counted
      · cases taken
        exact counted.deref fun address node found => counted.write found _
      · cases taken
        exact counted
      · cases taken
        exact counted
    | lockPop =>
      simp only [lockPop] at taken
      split at taken
      · rename_i free
        cases taken
        simpa [Counted, free, returning] using counted
      · cases taken
    | pop => exact counted.pop fresh taken

theorem Shape.length_leaving (shape : Shape q front nodes) :
    (leaving q.heap front q.popping).length = returning q.popping := by
  have one : (q.heap.values [front]).length = [front].length :=
    Heap.length_values fun p member =>
      shape.chain.allocated p (List.mem_singleton.mp member ▸ List.mem_cons_self)
  cases q.popping with
  | none => rfl
  | some stage =>
    cases stage with
    | deleted tmp => exact one
    | moved => exact one
    | _ => rfl

private theorem length_waiting (pushing : Option (PushSection α)) :
    (waiting pushing).length = (pushing.bind PushSection.cell).toList.length := by
  cases pushing with
  | none => rfl
  | some stage => cases stage <;> rfl

/-- The chain and the nodes of pushes are as many nodes as there are. -/
theorem Shape.card_live (shape : Shape q front nodes) (counted : Counted q) :
    (live q.heap q.allocated).card = (front :: nodes ++ q.cells.map Prod.fst).length := by
  have values := congrArg List.length shape.values
  have linked := Heap.length_values fun p member =>
    shape.chain.allocated p (List.mem_cons_of_mem front member)
  simp only [List.length_append, linked, shape.length_leaving, length_waiting] at values
  simp only [Counted] at counted
  simp only [cells, List.length_append, List.length_cons, List.length_map]
  omega

theorem Shape.placed (shape : Shape q front nodes) (counted : Counted q) : q.Placed := by
  refine ⟨front, nodes, shape.chain, shape.first, fun p node found => ?_⟩
  rw [← List.mem_append]
  by_contra apart
  have none := eq_none_of_card_live ?_ ?_ shape.fresh (shape.card_live counted) apart
  · cases none.symm.trans found
  · rw [List.nodup_append]
    refine ⟨shape.distinct, shape.prepared.distinct, ?_⟩
    rintro other inside _ waits rfl
    obtain ⟨cell, waiting, rfl⟩ := List.mem_map.mp waits
    exact shape.prepared.apart cell waiting inside
  · intro other member
    rcases List.mem_append.mp member with inside | waits
    · exact shape.chain.allocated other inside
    · obtain ⟨cell, waiting, rfl⟩ := List.mem_map.mp waits
      obtain ⟨node, present, _⟩ := shape.prepared.lone cell waiting
      exact ⟨node, present⟩

theorem Shape.destroy (shape : Shape q front nodes) (counted : Counted q) (unused : Unused q) :
    q.destroy = some fun _ => none := by
  have first := shape.first
  rw [unused.popping] at first
  have start : q.head = some front := first
  have card := shape.card_live counted
  have alone : q.cells = [] := by simp [cells, unused.pushing, unused.starting]
  simp only [alone, List.map_nil, List.append_nil, List.length_cons] at card
  have room : nodes.length < q.allocated := by
    have most := card_live_le q.heap q.allocated
    omega
  rw [LinkedQueue.destroy, start, Option.bind_some, shape.chain.free shape.distinct room]
  congr 1
  funext p
  split
  · rfl
  · exact eq_none_of_card_live shape.distinct shape.chain.allocated shape.fresh card ‹_›

/-- Whatever statements of pushes and pops interleave, no node is lost: every one
is either in the queue or the node of a push that is not there yet, and once no
call is in progress the destructor deletes them all, each once. -/
theorem leakFree_always [Inhabited α] (schedule : List (Event α)) :
    machine.Always LeakFree (new : LinkedQueue α) schedule := by
  refine Machine.always_of_invariant (fun q => Shaped q ∧ Counted q) ?_ ?_
    ⟨⟨0, [], .initial⟩, .initial⟩ schedule
  · rintro q ⟨⟨front, nodes, shape⟩, counted⟩
    exact ⟨shape.safe, counted, shape.placed counted, shape.destroy counted⟩
  · rintro before event after ⟨shaped, counted⟩ taken
    obtain ⟨front, nodes, shape⟩ := id shaped
    exact ⟨shaped.step taken, counted.step shape.fresh taken⟩

end LinkedQueue

end RpcLoop.Shared
