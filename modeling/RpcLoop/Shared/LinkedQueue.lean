import RpcLoop.Foundation.Chain
import RpcLoop.Foundation.Machine
import RpcLoop.Shared.SafeQueue

/-! `SafeQueue` statement by statement. A push prepares its node and takes
`h_lock_`, a pop takes `t_lock_`; any number of calls are in progress, and the
statements of calls behind different locks interleave freely. The values in the
order the pushes took their lock and in the order of the returning pops are
recorded beside the queue. -/

namespace RpcLoop.Shared

open Foundation

universe u

/-- A push that has not taken `h_lock_`, by the statement it has executed last:
`new NODE()`, `node->val = val`, `node->next = nullptr`. -/
inductive PushCall (α : Type u) where
  | created (node : Nat) (val : α)
  | valued (node : Nat) (val : α)
  | ready (node : Nat) (val : α)

/-- The push that holds `h_lock_`: it has taken the lock, executed `++size_`,
`tail_->next = node`, `tail_ = node`. -/
inductive PushSection (α : Type u) where
  | locked (node : Nat) (val : α)
  | counted (node : Nat) (val : α)
  | linked (node : Nat)
  | moved

/-- The pop that holds `t_lock_`: it has taken the lock, passed its assertion,
executed `--size_`, in `erase_` `tmp = node->next` and `delete node`, then
`head_ = tmp` and `return head_->val`. -/
inductive PopSection where
  | locked
  | tested
  | counted
  | read (tmp : Option Nat)
  | deleted (tmp : Option Nat)
  | moved
  | valued

/-- What ends the program: the assertion of `pop`, or a null or deleted pointer
that is followed. -/
inductive QueueFault where
  | assertion
  | dangling
  deriving DecidableEq

structure LinkedQueue (α : Type u) where
  heap : Heap α
  allocated : Nat
  head : Option Nat
  tail : Option Nat
  size : Int32
  starting : List (PushCall α)
  pushing : Option (PushSection α)
  popping : Option PopSection
  fault : Option QueueFault
  entered : List α
  returned : List α

namespace LinkedQueue

variable {α : Type u} [Inhabited α]

/-- The constructor: one dummy node. -/
def new : LinkedQueue α where
  heap := Function.update (fun _ => none) 0 (some { val := default, next := none })
  allocated := 1
  head := some 0
  tail := some 0
  size := 0
  starting := []
  pushing := none
  popping := none
  fault := none
  entered := []
  returned := []

inductive Event (α : Type u) where
  | newNode (val : α)
  | setVal (caller : Nat)
  | setNext (caller : Nat)
  | lockPush (caller : Nat)
  | push
  | lockPop
  | pop

/-- Follow a pointer to a node. -/
def deref (q : LinkedQueue α) (p : Option Nat) (use : Nat → Node α → LinkedQueue α) :
    LinkedQueue α :=
  match p with
  | none => { q with fault := some .dangling }
  | some address =>
    match q.heap address with
    | none => { q with fault := some .dangling }
    | some node => use address node

/-- Change a node, or delete it. -/
def store (q : LinkedQueue α) (p : Nat) (node : Option (Node α)) : LinkedQueue α :=
  { q with heap := Function.update q.heap p node }

/-- `NODE* node = new NODE()`. -/
def newNode (q : LinkedQueue α) (val : α) : LinkedQueue α :=
  { q.store q.allocated (some { val := default, next := none }) with
    allocated := q.allocated + 1
    starting := q.starting ++ [.created q.allocated val] }

/-- `node->val = val`. -/
def setVal (q : LinkedQueue α) (caller : Nat) : Option (LinkedQueue α) :=
  match q.starting[caller]? with
  | some (.created p val) =>
    some (q.deref (some p) fun p node =>
      { q.store p (some { node with val := val }) with
        starting := q.starting.set caller (.valued p val) })
  | _ => none

/-- `node->next = nullptr`. -/
def setNext (q : LinkedQueue α) (caller : Nat) : Option (LinkedQueue α) :=
  match q.starting[caller]? with
  | some (.valued p val) =>
    some (q.deref (some p) fun p node =>
      { q.store p (some { node with next := none }) with
        starting := q.starting.set caller (.ready p val) })
  | _ => none

/-- `scoped_lock lock(h_lock_)`. -/
def lockPush (q : LinkedQueue α) (caller : Nat) : Option (LinkedQueue α) :=
  match q.starting[caller]?, q.pushing with
  | some (.ready p val), none =>
    some { q with
      starting := q.starting.eraseIdx caller
      pushing := some (.locked p val)
      entered := q.entered ++ [val] }
  | _, _ => none

/-- The next statement of the push that holds `h_lock_`, and its release. -/
def push (q : LinkedQueue α) : Option (LinkedQueue α) :=
  match q.pushing with
  | none => none
  | some (.locked node val) =>
    some { q with size := q.size + 1, pushing := some (.counted node val) }
  | some (.counted node _) =>
    some (q.deref q.tail fun p last =>
      { q.store p (some { last with next := some node }) with pushing := some (.linked node) })
  | some (.linked node) => some { q with tail := some node, pushing := some .moved }
  | some .moved => some { q with pushing := none }

/-- `scoped_lock lock(t_lock_)`. -/
def lockPop (q : LinkedQueue α) : Option (LinkedQueue α) :=
  match q.popping with
  | none => some { q with popping := some .locked }
  | some _ => none

/-- The next statement of the pop that holds `t_lock_`, and its release. -/
def pop (q : LinkedQueue α) : Option (LinkedQueue α) :=
  match q.popping with
  | none => none
  | some .locked =>
    some (q.deref q.head fun _ first =>
      if first.next = none then { q with fault := some .assertion }
      else { q with popping := some .tested })
  | some .tested => some { q with size := q.size - 1, popping := some .counted }
  | some .counted =>
    some (q.deref q.head fun _ first => { q with popping := some (.read first.next) })
  | some (.read tmp) =>
    some (q.deref q.head fun p _ => { q.store p none with popping := some (.deleted tmp) })
  | some (.deleted tmp) => some { q with head := tmp, popping := some .moved }
  | some .moved =>
    some (q.deref q.head fun _ first =>
      { q with returned := q.returned ++ [first.val], popping := some .valued })
  | some .valued => some { q with popping := none }

def step (q : LinkedQueue α) (event : Event α) : Option (LinkedQueue α) :=
  if q.fault.isSome then none
  else
    match event with
    | .newNode val => some (q.newNode val)
    | .setVal caller => q.setVal caller
    | .setNext caller => q.setNext caller
    | .lockPush caller => q.lockPush caller
    | .push => q.push
    | .lockPop => q.lockPop
    | .pop => q.pop

/-- The queue as a transition system of statements. -/
def machine : Machine (LinkedQueue α) (Event α) where
  step := step

end LinkedQueue

end RpcLoop.Shared
