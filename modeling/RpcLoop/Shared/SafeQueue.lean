import Mathlib.Data.List.Basic

/-! `SafeQueue` with each operation as one atomic step. The list starts behind
a dummy head node, which keeps the value that was popped last. -/

namespace RpcLoop.Shared

universe u

structure SafeQueue (α : Type u) where
  head : Option α := none
  items : List α := []

namespace SafeQueue

variable {α : Type u}

def push (queue : SafeQueue α) (val : α) : SafeQueue α :=
  { queue with items := queue.items ++ [val] }

/-- `pop()`; its assertion fails on an empty queue. -/
def pop (queue : SafeQueue α) : Option (α × SafeQueue α) :=
  match queue.items with
  | [] => none
  | val :: rest => some (val, { head := some val, items := rest })

def size (queue : SafeQueue α) : Nat := queue.items.length

@[simp] theorem items_push (queue : SafeQueue α) (val : α) :
    (queue.push val).items = queue.items ++ [val] := rfl

theorem pop_eq_some {queue rest : SafeQueue α} {val : α} (popped : queue.pop = some (val, rest)) :
    queue.items = val :: rest.items ∧ rest.head = some val := by
  unfold pop at popped
  split at popped
  · cases popped
  · rename_i items
    cases popped
    exact ⟨items, rfl⟩

theorem size_pop {queue rest : SafeQueue α} {val : α} (popped : queue.pop = some (val, rest)) :
    queue.size = rest.size + 1 := by
  simp [size, (pop_eq_some popped).1]

end SafeQueue

end RpcLoop.Shared
