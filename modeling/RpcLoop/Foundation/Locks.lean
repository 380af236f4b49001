import Mathlib.Data.Finset.Basic
import Mathlib.Logic.Function.Basic
import RpcLoop.Foundation.Machine

/-! Threads that take and release mutexes, one access after the other. A thread
that locks a mutex waits until nobody holds it. -/

namespace RpcLoop.Foundation

universe u v w

inductive Access (μ : Type v) where
  | lock (mutex : μ)
  | unlock (mutex : μ)
  deriving DecidableEq

/-- What each thread has still to do, and who holds each mutex. -/
structure Locking (τ : Type u) (μ : Type v) where
  rest : τ → List (Access μ)
  holder : μ → Option τ

namespace Locking

open Machine

variable {τ : Type u} {μ : Type v}

/-- The next access of a thread waits for the other one. -/
def Waits (s : Locking τ μ) (thread other : τ) : Prop :=
  ∃ mutex later, s.rest thread = .lock mutex :: later ∧ s.holder mutex = some other

/-- Each thread of the set waits for a mutex that another one of the set holds. -/
def Deadlocked (s : Locking τ μ) (threads : Finset τ) : Prop :=
  threads.Nonempty ∧ ∀ thread ∈ threads, ∃ other ∈ threads, other ≠ thread ∧ s.Waits thread other

def start (program : τ → List (Access μ)) : Locking τ μ where
  rest := program
  holder _ := none

variable [DecidableEq τ] [DecidableEq μ]

/-- The thread goes on behind an access, and a mutex gets another holder. -/
def moved (s : Locking τ μ) (thread : τ) (later : List (Access μ)) (mutex : μ)
    (holder : Option τ) : Locking τ μ where
  rest := Function.update s.rest thread later
  holder := Function.update s.holder mutex holder

def step (s : Locking τ μ) (thread : τ) : Option (Locking τ μ) :=
  match s.rest thread with
  | [] => none
  | .lock mutex :: later =>
    if s.holder mutex = none then some (s.moved thread later mutex (some thread)) else none
  | .unlock mutex :: later => some (s.moved thread later mutex none)

def machine : Machine (Locking τ μ) τ where
  step := step

variable {s next : Locking τ μ} {thread : τ} {later : List (Access μ)} {mutex : μ}

/-- The two things a step can do. -/
theorem step_cases (taken : machine.step s thread = some next) :
    (∃ mutex later, s.rest thread = .lock mutex :: later ∧ s.holder mutex = none ∧
      next = s.moved thread later mutex (some thread)) ∨
    ∃ mutex later, s.rest thread = .unlock mutex :: later ∧
      next = s.moved thread later mutex none := by
  simp only [machine, step] at taken
  split at taken
  · cases taken
  · rename_i mutex later rest
    split at taken
    · rename_i free
      exact .inl ⟨mutex, later, rest, free, (Option.some.inj taken).symm⟩
    · cases taken
  · rename_i mutex later rest
    exact .inr ⟨mutex, later, rest, (Option.some.inj taken).symm⟩

theorem step_lock (rest : s.rest thread = .lock mutex :: later) (free : s.holder mutex = none) :
    machine.step s thread = some (s.moved thread later mutex (some thread)) := by
  simp only [machine, step, rest, if_pos free]

theorem step_unlock (rest : s.rest thread = .unlock mutex :: later) :
    machine.step s thread = some (s.moved thread later mutex none) := by
  simp only [machine, step, rest]

/-- The thread has done its next accesses and nothing else has changed. -/
def done (s : Locking τ μ) (thread : τ) (later : List (Access μ)) : Locking τ μ :=
  { s with rest := Function.update s.rest thread later }

variable {other : τ} {holder : Option τ}

@[simp] theorem rest_moved_self (s : Locking τ μ) (thread : τ) (later : List (Access μ))
    (mutex : μ) (holder : Option τ) : (s.moved thread later mutex holder).rest thread = later :=
  Function.update_self _ _ _

theorem rest_moved_of_ne (different : other ≠ thread) :
    (s.moved thread later mutex holder).rest other = s.rest other :=
  Function.update_of_ne different _ _

@[simp] theorem holder_moved_self : (s.moved thread later mutex holder).holder mutex = holder :=
  Function.update_self _ _ _

theorem holder_moved_of_ne {another : μ} (different : another ≠ mutex) :
    (s.moved thread later mutex holder).holder another = s.holder another :=
  Function.update_of_ne different _ _

omit [DecidableEq μ] in
@[simp] theorem rest_done_self (s : Locking τ μ) (thread : τ) (later : List (Access μ)) :
    (s.done thread later).rest thread = later :=
  Function.update_self _ _ _

omit [DecidableEq μ] in
theorem rest_done_of_ne (different : other ≠ thread) :
    (s.done thread later).rest other = s.rest other :=
  Function.update_of_ne different _ _

theorem moved_moved (s : Locking τ μ) (early : List (Access μ)) (first second : Option τ) :
    (s.moved thread early mutex first).moved thread later mutex second =
      s.moved thread later mutex second := by
  simp only [moved, Function.update_idem]

private theorem done_moved (s : Locking τ μ) (early : List (Access μ)) :
    (s.done thread early).moved thread later mutex holder =
      s.moved thread later mutex holder := by
  simp only [moved, done, Function.update_idem]

omit [DecidableEq μ] in
private theorem done_done (s : Locking τ μ) (early : List (Access μ)) :
    (s.done thread early).done thread later = s.done thread later := by
  simp only [done, Function.update_idem]

/-- A mutex whose holder stays the same. -/
theorem moved_same (same : s.holder mutex = holder) :
    s.moved thread later mutex holder = s.done thread later := by
  rw [moved, done, ← same, Function.update_eq_self]

/-! ### Running alone -/

/-- A thread can run the accesses alone, and holds nothing afterwards. -/
def RunsAlone (thread : τ) (block : List (Access μ)) : Prop :=
  ∀ (s : Locking τ μ) (later : List (Access μ)), (∀ mutex, s.holder mutex = none) →
    s.rest thread = block ++ later → machine.Reaches s (s.done thread later)

theorem RunsAlone.nil (thread : τ) : RunsAlone (μ := μ) thread [] := by
  intro s later free rest
  have same : s.done thread later = s := by
    rw [done, ← List.nil_append later, ← rest, Function.update_eq_self]
  rw [same]
  exact .refl s

theorem RunsAlone.append {first second : List (Access μ)} (early : RunsAlone thread first)
    (late : RunsAlone thread second) : RunsAlone thread (first ++ second) := by
  intro s later free rest
  rw [List.append_assoc] at rest
  have middle := early s (second ++ later) free rest
  have final := late (s.done thread (second ++ later)) later free (rest_done_self _ _ _)
  rw [done_done] at final
  exact middle.trans final

theorem RunsAlone.flatMap {ι : Type w} {blocks : ι → List (Access μ)}
    (each : ∀ block, RunsAlone thread (blocks block)) (items : List ι) :
    RunsAlone thread (items.flatMap blocks) := by
  induction items with
  | nil => exact .nil thread
  | cons item items ih =>
    rw [List.flatMap_cons]
    exact (each item).append ih

theorem RunsAlone.single (thread : τ) (mutex : μ) :
    RunsAlone thread [.lock mutex, .unlock mutex] := by
  intro s later free rest
  have locked := step_lock rest (free mutex)
  have unlocked := step_unlock
    (rest_moved_self s thread (.unlock mutex :: later) mutex (some thread))
  rw [moved_moved, moved_same (free mutex)] at unlocked
  exact ((Reaches.refl s).next locked).next unlocked

/-- A second mutex may be taken while the first one is held. -/
theorem RunsAlone.pair (thread : τ) {first second : μ} (different : first ≠ second) :
    RunsAlone thread [.lock first, .lock second, .unlock second, .unlock first] := by
  intro s later free rest
  have whole : s.rest thread =
    .lock first :: .lock second :: .unlock second :: .unlock first :: later := rest
  have outer := step_lock whole (free first)
  generalize held : s.moved thread (.lock second :: .unlock second :: .unlock first :: later) first
    (some thread) = middle at outer
  have todo : middle.rest thread = .lock second :: .unlock second :: .unlock first :: later := by
    rw [← held, rest_moved_self]
  have inside : middle.holder second = none := by
    rw [← held, holder_moved_of_ne different.symm, free second]
  have final : middle.moved thread later first none = s.done thread later := by
    rw [← held, moved_moved, moved_same (free first)]
  have inner := step_lock todo inside
  have back := step_unlock
    (rest_moved_self middle thread (.unlock second :: .unlock first :: later) second (some thread))
  have out := step_unlock (rest_done_self middle thread (.unlock first :: later))
  rw [moved_moved, moved_same inside] at back
  rw [done_moved, final] at out
  exact ((((Reaches.refl s).next outer).next inner).next back).next out

end Locking

end RpcLoop.Foundation
