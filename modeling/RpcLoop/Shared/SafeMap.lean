import Mathlib.Logic.Function.Basic

/-! `SafeMap` of shared pointers with each call as one atomic step. `operator[]`
returns a reference to the slot of its key; what goes through the reference
later is no part of the call. -/

namespace RpcLoop.Shared

universe u v

/-- A slot holds a default-constructed pointer until it is assigned. -/
structure SafeMap (κ : Type u) (α : Type v) where
  slot : κ → Option Nat
  value : Nat → Option α
  next : Nat
  old : ∀ key ref, slot key = some ref → ref < next

namespace SafeMap

variable {κ : Type u} {α : Type v} [DecidableEq κ]

def empty : SafeMap κ α where
  slot _ := none
  value _ := none
  next := 0
  old _ _ found := by cases found

/-- `find(key) != end()`. -/
def has (m : SafeMap κ α) (key : κ) : Bool := (m.slot key).isSome

/-- The slot that `operator[]` adds for a key that is missing. -/
def insertNull (m : SafeMap κ α) (key : κ) : SafeMap κ α where
  slot := Function.update m.slot key (some m.next)
  value := Function.update m.value m.next none
  next := m.next + 1
  old other ref found := by
    by_cases same : other = key
    · subst same
      rw [Function.update_self] at found
      cases found
      exact Nat.lt_succ_self _
    · rw [Function.update_of_ne same] at found
      exact Nat.lt_succ_of_lt (m.old other ref found)

/-- `operator[]`: a reference to the slot of the key. -/
def subscript (m : SafeMap κ α) (key : κ) : Nat × SafeMap κ α :=
  match m.slot key with
  | some ref => (ref, m)
  | none => (m.next, m.insertNull key)

/-- An assignment through a reference; the slot may have been erased meanwhile. -/
def assign (m : SafeMap κ α) (ref : Nat) (val : α) : SafeMap κ α :=
  { m with value := Function.update m.value ref (some val) }

/-- `erase(key)`. -/
def erase (m : SafeMap κ α) (key : κ) : SafeMap κ α where
  slot := Function.update m.slot key none
  value := m.value
  next := m.next
  old other ref found := by
    by_cases same : other = key
    · subst same
      rw [Function.update_self] at found
      cases found
    · rw [Function.update_of_ne same] at found
      exact m.old other ref found

variable {m : SafeMap κ α} {key other : κ} {ref : Nat}

theorem subscript_of_slot (found : m.slot key = some ref) : m.subscript key = (ref, m) := by
  simp only [subscript, found]

theorem subscript_of_none (missing : m.slot key = none) :
    m.subscript key = (m.next, m.insertNull key) := by
  simp only [subscript, missing]

@[simp] theorem slot_insertNull_self : (m.insertNull key).slot key = some m.next :=
  Function.update_self _ _ _

theorem slot_insertNull_of_ne (different : other ≠ key) :
    (m.insertNull key).slot other = m.slot other :=
  Function.update_of_ne different _ _

/-- A key that is in the map keeps its slot when another one is added. -/
theorem slot_insertNull_of_slot (missing : m.slot key = none) (found : m.slot other = some ref) :
    (m.insertNull key).slot other = some ref := by
  have different : other ≠ key := by
    rintro rfl
    cases missing.symm.trans found
  rw [slot_insertNull_of_ne different, found]

private theorem slot_erase_of_ne (different : other ≠ key) :
    (m.erase key).slot other = m.slot other :=
  Function.update_of_ne different _ _

/-- What `erase` leaves was there before. -/
theorem slot_of_erase (found : (m.erase key).slot other = some ref) : m.slot other = some ref := by
  by_cases same : other = key
  · subst same
    simp [erase] at found
  · rwa [slot_erase_of_ne same] at found

/-- A new slot is none of the others. -/
theorem value_insertNull_of_lt (older : ref < m.next) :
    (m.insertNull key).value ref = m.value ref :=
  Function.update_of_ne (Nat.ne_of_lt older) _ _

@[simp] theorem value_insertNull_next : (m.insertNull key).value m.next = none :=
  Function.update_self _ _ _

end SafeMap

end RpcLoop.Shared
