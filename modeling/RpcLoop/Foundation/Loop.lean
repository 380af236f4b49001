import Mathlib.Logic.Function.Iterate

/-! `while` loops: the rounds a loop makes before its test fails. -/

namespace RpcLoop.Foundation

universe u

structure Loop (State : Type u) where
  test : State → Bool
  round : State → State

namespace Loop

variable {State : Type u} (loop : Loop State)

/-- The state in which the test fails. There is none when the rounds allowed are
used up before. -/
def run : Nat → State → Option State
  | 0, _ => none
  | rounds + 1, state =>
    if loop.test state then run rounds (loop.round state) else some state

/-- The loop is over, and leaves the second state. -/
def Exits (state final : State) : Prop := ∃ rounds, loop.run rounds state = some final

/-- A loop makes a number of rounds when its test holds before each of them and
fails after the last. -/
def Rounds (count : Nat) (state : State) : Prop :=
  (∀ earlier < count, loop.test (loop.round^[earlier] state) = true) ∧
    loop.test (loop.round^[count] state) = false

variable {loop}

theorem exits_at_once {state : State} (fails : loop.test state = false) :
    loop.Exits state state :=
  ⟨1, by simp [run, fails]⟩

/-- A round leads to the state in which the rest of the loop leaves off. -/
theorem exits_round {state final : State} (holds : loop.test state = true) :
    loop.Exits state final ↔ loop.Exits (loop.round state) final := by
  constructor
  · rintro ⟨rounds, exits⟩
    cases rounds with
    | zero => cases exits
    | succ rounds =>
      rw [run, if_pos holds] at exits
      exact ⟨rounds, exits⟩
  · rintro ⟨rounds, exits⟩
    exact ⟨rounds + 1, by rw [run, if_pos holds, exits]⟩

theorem exits_of_rounds {count : Nat} {state : State} (rounds : loop.Rounds count state) :
    loop.Exits state (loop.round^[count] state) := by
  induction count generalizing state with
  | zero => exact exits_at_once rounds.2
  | succ count ih =>
    have holds : loop.test state = true := rounds.1 0 (Nat.succ_pos count)
    refine (exits_round holds).mpr (ih ?_)
    refine ⟨fun earlier before => ?_, rounds.2⟩
    exact rounds.1 (earlier + 1) (Nat.succ_lt_succ before)

theorem rounds_of_exits {state final : State} (exits : loop.Exits state final) :
    ∃ count, loop.Rounds count state ∧ final = loop.round^[count] state := by
  obtain ⟨rounds, exits⟩ := exits
  induction rounds generalizing state with
  | zero => cases exits
  | succ rounds ih =>
    rw [run] at exits
    split at exits
    · rename_i holds
      obtain ⟨count, ⟨tests, fails⟩, same⟩ := ih exits
      refine ⟨count + 1, ⟨fun earlier before => ?_, fails⟩, same⟩
      cases earlier with
      | zero => exact holds
      | succ earlier => exact tests earlier (Nat.lt_of_succ_lt_succ before)
    · rename_i fails
      cases exits
      refine ⟨0, ⟨fun earlier before => absurd before (Nat.not_lt_zero _), ?_⟩, rfl⟩
      exact Bool.not_eq_true _ ▸ fails

theorem Rounds.unique {first second : Nat} {state : State} (left : loop.Rounds first state)
    (right : loop.Rounds second state) : first = second := by
  rcases Nat.lt_trichotomy first second with less | same | more
  · cases left.2.symm.trans (right.1 first less)
  · exact same
  · cases right.2.symm.trans (left.1 second more)

theorem Exits.unique {state first second : State} (left : loop.Exits state first)
    (right : loop.Exits state second) : first = second := by
  obtain ⟨count, rounds, rfl⟩ := rounds_of_exits left
  obtain ⟨other, also, rfl⟩ := rounds_of_exits right
  rw [rounds.unique also]

/-- A loop is over when every round it makes takes away from a variant. -/
theorem exits_of_variant (invariant : State → Prop) (variant : State → Nat)
    (keeps : ∀ {state}, invariant state → loop.test state = true →
      invariant (loop.round state) ∧ variant (loop.round state) < variant state)
    {state : State} (initial : invariant state) : ∃ final, loop.Exits state final := by
  induction bound : variant state using Nat.strongRecOn generalizing state with
  | ind bound ih =>
    subst bound
    cases test : loop.test state with
    | false => exact ⟨state, exits_at_once test⟩
    | true =>
      obtain ⟨later, less⟩ := keeps initial test
      obtain ⟨final, exits⟩ := ih _ less later rfl
      exact ⟨final, (exits_round test).mpr exits⟩

/-- What every round keeps holds when the loop is over. -/
theorem Exits.invariant {invariant : State → Prop}
    (keeps : ∀ {state}, invariant state → loop.test state = true → invariant (loop.round state))
    {state final : State} (initial : invariant state) (exits : loop.Exits state final) :
    invariant final := by
  obtain ⟨rounds, exits⟩ := exits
  induction rounds generalizing state with
  | zero => cases exits
  | succ rounds ih =>
    rw [run] at exits
    split at exits
    · rename_i holds
      exact ih (keeps initial holds) exits
    · cases exits
      exact initial

end Loop

end RpcLoop.Foundation
