import Mathlib.Data.Set.Function
import Mathlib.Tactic.Choose
import RpcLoop.Foundation.Locks

/-! The locks of `SafeMap`. `operator=` takes the lock of the map it assigns to
and then, holding it, the lock of its operand; the other operations take one lock
at most. -/

namespace RpcLoop.Shared

open Foundation

universe u v

/-- Calls on maps: `operator=`, those that lock one map (`operator[]`, `size`,
`update`, `erase`, `find`, `insert`, `begin`, and the copy constructor, which
locks its operand), and `end`, which locks none. -/
inductive MapOp (μ : Type v) where
  | assign (this val : μ)
  | call (this : μ)
  | endItr

namespace MapOp

variable {τ : Type u} {μ : Type v} [DecidableEq τ] [DecidableEq μ]

/-- The accesses of a call to the locks of its maps. -/
def accesses : MapOp μ → List (Access μ)
  | .assign this val =>
    if this = val then [] else [.lock this, .lock val, .unlock val, .unlock this]
  | .call this => [.lock this, .unlock this]
  | .endItr => []

/-- Threads that each make a sequence of calls. -/
def start (program : τ → List (MapOp μ)) : Locking τ μ :=
  .start fun thread => (program thread).flatMap accesses

/-- Each thread of the set assigns a map of its own from one that another thread
of the set assigns to. -/
def AssignmentRing (program : τ → List (MapOp μ)) (threads : Finset τ) : Prop :=
  threads.Nonempty ∧ ∃ this val : τ → μ,
    (∀ thread ∈ threads, .assign (this thread) (val thread) ∈ program thread ∧
      this thread ≠ val thread) ∧
    (∀ thread ∈ threads, ∀ other ∈ threads, this thread = this other → thread = other) ∧
    ∀ thread ∈ threads, ∃ other ∈ threads, this other = val thread

/-- Where a thread is in its calls, and the locks it holds there. -/
inductive Phase (calls : List (MapOp μ)) : List (Access μ) → List μ → Prop where
  | between (later : List (MapOp μ)) (suffix : later <:+ calls) :
      Phase calls (later.flatMap accesses) []
  | locked (mutex : μ) (later : List (MapOp μ)) (suffix : later <:+ calls) :
      Phase calls (.unlock mutex :: later.flatMap accesses) [mutex]
  | first (this val : μ) (later : List (MapOp μ)) (suffix : later <:+ calls)
      (member : .assign this val ∈ calls) (different : this ≠ val) :
      Phase calls (.lock val :: .unlock val :: .unlock this :: later.flatMap accesses) [this]
  | both (this val : μ) (later : List (MapOp μ)) (suffix : later <:+ calls)
      (different : this ≠ val) :
      Phase calls (.unlock val :: .unlock this :: later.flatMap accesses) [val, this]

/-- Every thread holds the locks of its phase and no others. -/
def Phased (program : τ → List (MapOp μ)) (s : Locking τ μ) : Prop :=
  ∀ thread, ∃ held, Phase (program thread) (s.rest thread) held ∧
    ∀ mutex, s.holder mutex = some thread ↔ mutex ∈ held

variable {program : τ → List (MapOp μ)} {s next : Locking τ μ}

/-! ### Phases -/

private theorem phase_lock {calls later : List (MapOp μ)} (suffix : later <:+ calls) {mutex : μ}
    {rest : List (Access μ)} (next : later.flatMap accesses = .lock mutex :: rest) :
    Phase calls rest [mutex] := by
  induction later with
  | nil => cases next
  | cons call later ih =>
    have behind : later <:+ calls := (List.suffix_cons call later).trans suffix
    rw [List.flatMap_cons] at next
    cases call with
    | endItr => exact ih behind next
    | call this =>
      cases next
      exact .locked mutex later behind
    | assign this val =>
      by_cases same : this = val
      · rw [accesses, if_pos same] at next
        exact ih behind next
      · rw [accesses, if_neg same] at next
        cases next
        exact .first mutex val later behind (suffix.subset List.mem_cons_self) same

private theorem not_unlock (later : List (MapOp μ)) (mutex : μ) (rest : List (Access μ)) :
    later.flatMap accesses ≠ .unlock mutex :: rest := by
  induction later with
  | nil => simp
  | cons call later ih =>
    rw [List.flatMap_cons]
    cases call with
    | endItr => exact ih
    | call this => simp [accesses]
    | assign this val =>
      by_cases same : this = val
      · rw [accesses, if_pos same]
        exact ih
      · simp [accesses, same]

theorem Phase.lock {calls : List (MapOp μ)} {mutex : μ} {rest : List (Access μ)} {held : List μ}
    (phase : Phase calls (.lock mutex :: rest) held) : Phase calls rest (mutex :: held) := by
  generalize same : Access.lock mutex :: rest = todo at phase
  cases phase with
  | between later suffix => exact phase_lock suffix same.symm
  | locked other later suffix => cases same
  | first this val later suffix member different =>
    cases same
    exact .both this mutex later suffix different
  | both this val later suffix different => cases same

theorem Phase.unlock {calls : List (MapOp μ)} {mutex : μ} {rest : List (Access μ)}
    {held : List μ} (phase : Phase calls (.unlock mutex :: rest) held) :
    ∃ remaining, held = mutex :: remaining ∧ mutex ∉ remaining ∧ Phase calls rest remaining := by
  generalize same : Access.unlock mutex :: rest = todo at phase
  cases phase with
  | between later suffix => exact absurd same.symm (not_unlock later mutex rest)
  | locked other later suffix =>
    cases same
    exact ⟨[], rfl, List.not_mem_nil, .between later suffix⟩
  | first this val later suffix member different => cases same
  | both this val later suffix different =>
    cases same
    refine ⟨[this], rfl, ?_, .locked this later suffix⟩
    rw [List.mem_singleton]
    exact different.symm

omit [DecidableEq τ] in
theorem Phased.initial (program : τ → List (MapOp μ)) : Phased program (start program) := by
  intro thread
  exact ⟨[], .between (program thread) (List.suffix_refl _), by simp [start, Locking.start]⟩

theorem Phased.step (phased : Phased program s) {thread : τ}
    (taken : Locking.machine.step s thread = some next) : Phased program next := by
  intro other
  obtain ⟨held, phase, holds⟩ := phased other
  rcases Locking.step_cases taken with ⟨mutex, later, rest, free, rfl⟩ | ⟨mutex, later, rest, rfl⟩
  · by_cases same : other = thread
    · subst same
      rw [rest] at phase
      refine ⟨mutex :: held, by rw [Locking.rest_moved_self]; exact phase.lock, fun another => ?_⟩
      by_cases equal : another = mutex
      · subst equal
        simp
      · rw [Locking.holder_moved_of_ne equal, holds, List.mem_cons, or_iff_right equal]
    · refine ⟨held, by rw [Locking.rest_moved_of_ne same]; exact phase, fun another => ?_⟩
      by_cases equal : another = mutex
      · subst equal
        have unheld : another ∉ held := by
          rw [← holds, free]
          simp
        simp [unheld, Ne.symm same]
      · rw [Locking.holder_moved_of_ne equal, holds]
  · by_cases same : other = thread
    · subst same
      rw [rest] at phase
      obtain ⟨remaining, rfl, once, later⟩ := phase.unlock
      refine ⟨remaining, by rw [Locking.rest_moved_self]; exact later, fun another => ?_⟩
      by_cases equal : another = mutex
      · subst equal
        simp [once]
      · rw [Locking.holder_moved_of_ne equal, holds, List.mem_cons, or_iff_right equal]
    · obtain ⟨mine, owner, owns⟩ := phased thread
      rw [rest] at owner
      obtain ⟨remaining, rfl, -, -⟩ := owner.unlock
      have holder : s.holder mutex = some thread := (owns mutex).mpr List.mem_cons_self
      refine ⟨held, by rw [Locking.rest_moved_of_ne same]; exact phase, fun another => ?_⟩
      by_cases equal : another = mutex
      · subst equal
        have unheld : another ∉ held := by
          rw [← holds, holder]
          simp [Ne.symm same]
        simp [unheld]
      · rw [Locking.holder_moved_of_ne equal, holds]

/-! ### Deadlocks -/

theorem Phase.waits {calls : List (MapOp μ)} {mutex : μ} {rest : List (Access μ)} {held : List μ}
    (phase : Phase calls (.lock mutex :: rest) held) (holds : held ≠ []) :
    ∃ this, held = [this] ∧ .assign this mutex ∈ calls ∧ this ≠ mutex := by
  generalize same : Access.lock mutex :: rest = todo at phase
  cases phase with
  | between later suffix => exact absurd rfl holds
  | locked other later suffix => cases same
  | first this val later suffix member different =>
    cases same
    exact ⟨this, rfl, member, different⟩
  | both this val later suffix different => cases same

omit [DecidableEq τ] in
private theorem ring_of_deadlock (phased : Phased program s) {threads : Finset τ}
    (deadlocked : s.Deadlocked threads) : ∃ ring, AssignmentRing program ring := by
  classical
  obtain ⟨⟨witness, member⟩, waits⟩ := deadlocked
  let ring := threads.filter fun thread => ∃ mutex, s.holder mutex = some thread
  have stuck : ∀ thread ∈ ring, ∃ this val, (.assign this val ∈ program thread ∧ this ≠ val) ∧
      (∀ mutex, s.holder mutex = some thread ↔ mutex = this) ∧
      ∃ other ∈ ring, s.holder val = some other := by
    intro thread among
    obtain ⟨inside, mutex, holder⟩ := Finset.mem_filter.mp among
    obtain ⟨other, also, -, val, later, rest, owner⟩ := waits thread inside
    obtain ⟨held, phase, holds⟩ := phased thread
    rw [rest] at phase
    have some : held ≠ [] := List.ne_nil_of_mem ((holds mutex).mp holder)
    obtain ⟨this, rfl, assigns, different⟩ := phase.waits some
    refine ⟨this, val, ⟨assigns, different⟩, fun other => ?_, other, ?_, owner⟩
    · rw [holds, List.mem_singleton]
    · exact Finset.mem_filter.mpr ⟨also, val, owner⟩
  obtain ⟨first, also, -, mutex, later, rest, owner⟩ := waits witness member
  have : Nonempty μ := ⟨mutex⟩
  choose! this val assigns holds next using stuck
  refine ⟨ring, ⟨first, Finset.mem_filter.mpr ⟨also, mutex, owner⟩⟩, this, val, assigns, ?_, ?_⟩
  · intro thread among other too same
    have mine := (holds thread among (this thread)).mpr rfl
    have theirs := (holds other too (this thread)).mpr same
    exact Option.some.inj (mine.symm.trans theirs)
  · intro thread among
    obtain ⟨other, too, owner⟩ := next thread among
    exact ⟨other, too, ((holds other too (val thread)).mp owner).symm⟩

private theorem runsAlone (thread : τ) (call : MapOp μ) :
    Locking.RunsAlone thread call.accesses := by
  cases call with
  | endItr => exact .nil thread
  | call this => exact .single thread this
  | assign this val =>
    by_cases same : this = val
    · rw [accesses, if_pos same]
      exact .nil thread
    · rw [accesses, if_neg same]
      exact .pair thread same

section Ring

variable {ring : Finset τ} {this val : τ → μ}

private theorem ring_ready (assigns : ∀ thread ∈ ring,
      .assign (this thread) (val thread) ∈ program thread ∧ this thread ≠ val thread) :
    ∃ s, Locking.machine.Reaches (start program) s ∧ (∀ mutex, s.holder mutex = none) ∧
      ∀ thread ∈ ring, ∃ later,
        s.rest thread = .lock (this thread) :: .lock (val thread) :: later := by
  suffices all : ∀ done ⊆ ring, ∃ s, Locking.machine.Reaches (start program) s ∧
      (∀ mutex, s.holder mutex = none) ∧
      (∀ thread ∈ done, ∃ later,
        s.rest thread = .lock (this thread) :: .lock (val thread) :: later) ∧
      ∀ thread ∉ done, s.rest thread = (program thread).flatMap accesses by
    obtain ⟨s, reached, free, ready, -⟩ := all ring (Finset.Subset.refl ring)
    exact ⟨s, reached, free, ready⟩
  intro done
  induction done using Finset.induction_on with
  | empty =>
    intro _
    exact ⟨start program, .refl _, fun _ => rfl, by simp, fun _ _ => rfl⟩
  | insert thread done new ih =>
    intro inside
    obtain ⟨s, reached, free, ready, others⟩ := ih ((Finset.subset_insert thread done).trans inside)
    obtain ⟨member, different⟩ := assigns thread (inside (Finset.mem_insert_self thread done))
    obtain ⟨front, back, split⟩ := List.append_of_mem member
    have rest := others thread new
    rw [split, List.flatMap_append, List.flatMap_cons, accesses, if_neg different] at rest
    have moved := Locking.RunsAlone.flatMap (runsAlone thread) front s _ free rest
    refine ⟨_, reached.trans moved, free, ?_, ?_⟩
    · intro other among
      by_cases same : other = thread
      · subst same
        exact ⟨_, Locking.rest_done_self _ _ _⟩
      · rw [Locking.rest_done_of_ne same]
        exact ready other (Finset.mem_of_mem_insert_of_ne among same)
    · intro other outside
      rw [Finset.mem_insert, not_or] at outside
      rw [Locking.rest_done_of_ne outside.1]
      exact others other outside.2

/-- From there they can all take their first locks, and then wait for each other. -/
theorem deadlock_of_ring (found : AssignmentRing program ring) :
    ∃ s, Locking.machine.Reaches (start program) s ∧ s.Deadlocked ring := by
  obtain ⟨some, this, val, assigns, apart, closed⟩ := found
  suffices all : ∀ done ⊆ ring, ∃ s, Locking.machine.Reaches (start program) s ∧
      (∀ thread ∈ done, s.holder (this thread) = .some thread ∧
        ∃ later, s.rest thread = .lock (val thread) :: later) ∧
      ∀ thread ∈ ring, thread ∉ done → s.holder (this thread) = none ∧
        ∃ later, s.rest thread = .lock (this thread) :: .lock (val thread) :: later by
    obtain ⟨s, reached, taken, -⟩ := all ring (Finset.Subset.refl ring)
    refine ⟨s, reached, some, fun thread among => ?_⟩
    obtain ⟨other, too, same⟩ := closed thread among
    obtain ⟨-, later, rest⟩ := taken thread among
    have owner := (taken other too).1
    rw [same] at owner
    refine ⟨other, too, ?_, val thread, later, rest, owner⟩
    rintro rfl
    exact (assigns other among).2 same
  intro done
  induction done using Finset.induction_on with
  | empty =>
    intro _
    obtain ⟨s, reached, free, ready⟩ := ring_ready assigns
    exact ⟨s, reached, by simp, fun thread among _ => ⟨free _, ready thread among⟩⟩
  | insert thread done new ih =>
    intro inside
    obtain ⟨s, reached, taken, waiting⟩ := ih ((Finset.subset_insert thread done).trans inside)
    have among := inside (Finset.mem_insert_self thread done)
    obtain ⟨free, later, rest⟩ := waiting thread among new
    refine ⟨_, reached.next (Locking.step_lock rest free), ?_, ?_⟩
    · intro other too
      by_cases same : other = thread
      · subst same
        exact ⟨Locking.holder_moved_self, later, Locking.rest_moved_self _ _ _ _ _⟩
      · have before := Finset.mem_of_mem_insert_of_ne too same
        have elsewhere : this other ≠ this thread := fun equal =>
          same (apart other (inside too) thread among equal)
        rw [Locking.holder_moved_of_ne elsewhere, Locking.rest_moved_of_ne same]
        exact taken other before
    · intro other too outside
      rw [Finset.mem_insert, not_or] at outside
      have elsewhere : this other ≠ this thread := fun equal =>
        outside.1 (apart other too thread among equal)
      rw [Locking.holder_moved_of_ne elsewhere, Locking.rest_moved_of_ne outside.1]
      exact waiting other too outside.2

end Ring

/-- Calls on `SafeMap`s can deadlock exactly when assignments of several threads
form a ring. -/
theorem deadlockFree_iff (program : τ → List (MapOp μ)) :
    (∀ s, Locking.machine.Reaches (start program) s → ∀ threads, ¬ s.Deadlocked threads) ↔
      ∀ ring, ¬ AssignmentRing program ring := by
  constructor
  · intro free ring found
    obtain ⟨s, reached, deadlocked⟩ := deadlock_of_ring found
    exact free s reached ring deadlocked
  · intro none s reached threads deadlocked
    have phased := reached.invariant (fun held taken => Phased.step held taken) (.initial program)
    obtain ⟨ring, found⟩ := ring_of_deadlock phased deadlocked
    exact none ring found

/-- `a = b` in one thread and `b = a` in another. -/
def crossed (thread : Bool) : List (MapOp Bool) := [.assign thread (!thread)]

/-- Each takes its first lock and waits for the other's. -/
theorem crossed_deadlock :
    ∃ s, Locking.machine.Reaches (start crossed) s ∧ s.Deadlocked {false, true} := by
  refine deadlock_of_ring ⟨by decide, id, not, fun thread _ => ?_, fun _ _ _ _ same => same, ?_⟩
  · exact ⟨List.mem_cons_self, by cases thread <;> decide⟩
  · intro thread _
    exact ⟨!thread, by cases thread <;> decide, rfl⟩

end MapOp

end RpcLoop.Shared
