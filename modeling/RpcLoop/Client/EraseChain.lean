import RpcLoop.Client.Transition

/-! How many chains of `erase_msg_timer` a client runs. Every successful
`handle_connect` starts one; arming the timer again cancels the wait of the
other chains, whose handlers then run at once and arm it themselves. -/

namespace RpcLoop.ClientLoop

open Foundation Asio Shared

/-- The event in which `handle_connect` is invoked without an error. -/
def Event.connects : Event → Bool
  | .handleConnect _ error => !error
  | _ => false

/-- At most one invocation of `erase_msg_timer` is pending. -/
def OneEraseChain (s : ClientLoop) : Prop := s.eTimer.waits ≤ 1

/-- `erase_msg_timer` is not invoked because its wait was cancelled. -/
def InvokedByExpiry (_ : ClientLoop) (event : Event) (_ : ClientLoop) : Prop :=
  event ≠ .eraseTimer true

instance (s : ClientLoop) : Decidable (OneEraseChain s) :=
  inferInstanceAs (Decidable (_ ≤ 1))

variable {layout : IntLayout} {s next final : ClientLoop} {event : Event}

/-- A wait is cancelled only where another chain armed the timer. -/
def CancelledByOther (s : ClientLoop) : Prop := s.eTimer.waits ≤ 1 → s.eTimer.cancelled = 0

private theorem cancelled_rearm {timer : DeadlineTimer}
    (few : timer.expiresFromNow.asyncWait.waits ≤ 1) :
    timer.expiresFromNow.asyncWait.cancelled = 0 := by
  rw [DeadlineTimer.waits_rearm] at few
  simp only [DeadlineTimer.waits] at few
  simp only [DeadlineTimer.asyncWait, DeadlineTimer.expiresFromNow, DeadlineTimer.cancel]
  omega

/-- Only a successful connect adds an invocation that is still to come. -/
theorem waits_step (transition : Transition layout s event next) :
    next.eTimer.waits = s.eTimer.waits + [event].countP Event.connects := by
  cases transition with
  | connectOk index op link erased start done reading erases =>
    exact DeadlineTimer.waits_rearm s.eTimer
  | eraseExpired timer moved => exact (DeadlineTimer.waits_expire moved).1
  | erased error timer after moved erases =>
    rw [DeadlineTimer.waits_rearm]
    cases error with
    | true => exact (DeadlineTimer.waits_takeCancelled moved).1.symm
    | false => exact (DeadlineTimer.waits_takeExpired moved).1.symm
  | _ => rfl

theorem CancelledByOther.step (other : CancelledByOther s)
    (transition : Transition layout s event next) : CancelledByOther next := by
  cases transition with
  | connectOk index op link erased start done reading erases => exact cancelled_rearm
  | erased error timer after moved erases => exact cancelled_rearm
  | eraseExpired timer moved =>
    obtain ⟨waits, cancelled⟩ := DeadlineTimer.waits_expire moved
    intro few
    rw [waits] at few
    exact cancelled.trans (other few)
  | _ => exact other

theorem CancelledByOther.invokedByExpiry (other : CancelledByOther s) (one : OneEraseChain s)
    (transition : Transition layout s event next) : InvokedByExpiry s event next := by
  rintro rfl
  cases transition with
  | erased _ timer after moved erases =>
    have cancelled := (DeadlineTimer.waits_takeCancelled moved).2
    rw [other one] at cancelled
    exact Nat.noConfusion cancelled

private theorem waits_run {schedule : List Event}
    (runs : (machine layout).run s schedule = some final) :
    final.eTimer.waits = s.eTimer.waits + schedule.countP Event.connects := by
  induction schedule generalizing s with
  | nil =>
    cases Option.some.inj runs
    rfl
  | cons event rest ih =>
    obtain ⟨next, taken, later⟩ := Machine.run_cons_eq_some.mp runs
    have first := waits_step (transition_of_step taken)
    rw [ih later, first, List.countP_cons, List.countP_cons]
    simp only [List.countP_nil]
    omega

private theorem oneEraseChain_of_connects {schedule : List Event} (other : CancelledByOther s)
    (runs : (machine layout).run s schedule = some final)
    (once : s.eTimer.waits + schedule.countP Event.connects ≤ 1) :
    (machine layout).Always OneEraseChain s schedule ∧
      (machine layout).AllSteps InvokedByExpiry s schedule := by
  induction schedule generalizing s with
  | nil => exact ⟨Nat.le_trans (Nat.le_add_right _ _) once, trivial⟩
  | cons event rest ih =>
    obtain ⟨next, taken, later⟩ := Machine.run_cons_eq_some.mp runs
    have transition := transition_of_step taken
    have one : OneEraseChain s := Nat.le_trans (Nat.le_add_right _ _) once
    have moved := waits_step transition
    rw [List.countP_cons] at once moved
    obtain ⟨always, all⟩ := ih (other.step transition) later (by simp at moved; omega)
    refine ⟨⟨one, ?_⟩, ?_⟩
    · intro after same
      cases taken.symm.trans same
      exact always
    · intro after same
      cases taken.symm.trans same
      exact ⟨other.invokedByExpiry one transition, all⟩

/-- A client has one erase timer chain in exactly the runs in which it connects
successfully at most once. -/
theorem oneEraseChain_iff_connectsOnce (layout : IntLayout) (csq : ClientSendQueue)
    (schedule : List Event) (runs : (machine layout).run (start csq) schedule = some final) :
    ((machine layout).Always OneEraseChain (start csq) schedule ∧
      (machine layout).AllSteps InvokedByExpiry (start csq) schedule) ↔
    schedule.countP Event.connects ≤ 1 := by
  have none : (start csq).eTimer.waits = 0 := rfl
  constructor
  · intro held
    have last : OneEraseChain final := held.1.final runs
    rw [OneEraseChain, waits_run runs, none] at last
    omega
  · intro once
    refine oneEraseChain_of_connects (fun _ => rfl) runs ?_
    omega

/-- The timer of a client that comes up runs out once. -/
def tickedOnce : List Event :=
  [.connected 0, .handleConnect 0 false, .eraseExpire, .eraseTimer false]

theorem tickedOnce_oneEraseChain :
    ((machine .littleEndian).Always OneEraseChain (start .on) tickedOnce ∧
      (machine .littleEndian).AllSteps InvokedByExpiry (start .on) tickedOnce) ↔
    tickedOnce.countP Event.connects ≤ 1 :=
  oneEraseChain_iff_connectsOnce .littleEndian .on tickedOnce
    (Option.eq_some_of_isSome (by decide +kernel))

/-- Its connection is lost once, and a caller connects it again. -/
def reconnected : List Event :=
  [.connected 0, .handleConnect 0 false, .handleRead 0 true, .isOpen, .connected 0,
    .handleConnect 0 false, .eraseTimer true]

/-- A second chain runs, and it was invoked because the first one was cancelled. -/
theorem reconnected_twoEraseChains :
    ¬ ((machine .littleEndian).Always OneEraseChain (start .on) reconnected ∧
      (machine .littleEndian).AllSteps InvokedByExpiry (start .on) reconnected) := by
  rintro ⟨always, _⟩
  revert always
  decide +kernel

end RpcLoop.ClientLoop
