/-! A boost deadline timer, as the number of its waits in each stage. Expiry and
cancellation only queue a handler; a queued handler can no longer be recalled. -/

namespace RpcLoop.Asio

structure DeadlineTimer where
  pending : Nat := 0
  expired : Nat := 0
  cancelled : Nat := 0
  deriving DecidableEq, Repr

namespace DeadlineTimer

/-- `cancel()`: the pending waits are queued with `operation_aborted`. -/
def cancel (timer : DeadlineTimer) : DeadlineTimer where
  pending := 0
  expired := timer.expired
  cancelled := timer.cancelled + timer.pending

/-- `expires_at` and `expires_from_now` cancel the waits of the earlier expiry time. -/
def expiresFromNow (timer : DeadlineTimer) : DeadlineTimer := timer.cancel

def asyncWait (timer : DeadlineTimer) : DeadlineTimer :=
  { timer with pending := timer.pending + 1 }

/-- The expiry time of one pending wait passes. -/
def expire (timer : DeadlineTimer) : Option DeadlineTimer :=
  match timer.pending with
  | 0 => none
  | pending + 1 => some { timer with pending := pending, expired := timer.expired + 1 }

/-- A handler queued by expiry leaves the queue and is invoked without an error. -/
def takeExpired (timer : DeadlineTimer) : Option DeadlineTimer :=
  match timer.expired with
  | 0 => none
  | expired + 1 => some { timer with expired := expired }

/-- A handler queued by cancellation leaves the queue and is invoked with an error. -/
def takeCancelled (timer : DeadlineTimer) : Option DeadlineTimer :=
  match timer.cancelled with
  | 0 => none
  | cancelled + 1 => some { timer with cancelled := cancelled }

/-- The waits whose handlers are still to be invoked. -/
def waits (timer : DeadlineTimer) : Nat := timer.pending + timer.expired + timer.cancelled

@[simp] theorem cancel_pending (timer : DeadlineTimer) : timer.cancel.pending = 0 := rfl

@[simp] theorem cancel_expired (timer : DeadlineTimer) : timer.cancel.expired = timer.expired := rfl

theorem expire_eq_some {timer next : DeadlineTimer} (step : timer.expire = some next) :
    timer.pending = next.pending + 1 ∧ next.expired = timer.expired + 1 := by
  unfold expire at step
  split at step
  · cases step
  · rename_i pending
    cases step
    exact ⟨pending, rfl⟩

theorem takeExpired_eq_some {timer next : DeadlineTimer} (step : timer.takeExpired = some next) :
    timer.expired = next.expired + 1 ∧ next.pending = timer.pending := by
  unfold takeExpired at step
  split at step
  · cases step
  · rename_i expired
    cases step
    exact ⟨expired, rfl⟩

theorem takeCancelled_eq_some {timer next : DeadlineTimer}
    (step : timer.takeCancelled = some next) :
    next.expired = timer.expired ∧ next.pending = timer.pending := by
  unfold takeCancelled at step
  split at step
  · cases step
  · cases step
    exact ⟨rfl, rfl⟩

/-- Arming a timer adds one wait; the cancelled ones are still to be invoked. -/
theorem waits_rearm (timer : DeadlineTimer) :
    timer.expiresFromNow.asyncWait.waits = timer.waits + 1 := by
  simp only [waits, asyncWait, expiresFromNow, cancel]
  omega

theorem waits_expire {timer next : DeadlineTimer} (step : timer.expire = some next) :
    next.waits = timer.waits ∧ next.cancelled = timer.cancelled := by
  unfold expire at step
  split at step
  · cases step
  · rename_i pending
    cases step
    refine ⟨?_, rfl⟩
    simp only [waits, pending]
    omega

theorem waits_takeExpired {timer next : DeadlineTimer} (step : timer.takeExpired = some next) :
    timer.waits = next.waits + 1 ∧ next.cancelled = timer.cancelled := by
  unfold takeExpired at step
  split at step
  · cases step
  · rename_i expired
    cases step
    refine ⟨?_, rfl⟩
    simp only [waits, expired]
    omega

theorem waits_takeCancelled {timer next : DeadlineTimer}
    (step : timer.takeCancelled = some next) :
    timer.waits = next.waits + 1 ∧ timer.cancelled = next.cancelled + 1 := by
  unfold takeCancelled at step
  split at step
  · cases step
  · rename_i cancelled
    cases step
    refine ⟨?_, cancelled⟩
    simp only [waits, cancelled]
    omega

/-- A pending wait can expire, and a queued handler can be invoked. -/
theorem expire_of_pos {timer : DeadlineTimer} (armed : 0 < timer.pending) :
    ∃ next, timer.expire = some next ∧ 0 < next.expired := by
  unfold expire
  split
  · omega
  · exact ⟨_, rfl, Nat.succ_pos _⟩

theorem takeExpired_of_pos {timer : DeadlineTimer} (queued : 0 < timer.expired) :
    ∃ next, timer.takeExpired = some next := by
  unfold takeExpired
  split
  · omega
  · exact ⟨_, rfl⟩

end DeadlineTimer

end RpcLoop.Asio
