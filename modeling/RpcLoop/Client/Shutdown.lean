import RpcLoop.Client.Destroy

/-! When `do_close` may be called. Its guard looks at `clietn_status` and its
`shutdown` at the socket. -/

namespace RpcLoop

open Foundation Asio Shared

/-- `do_close` comes behind its guard, or else it finds a socket and comes neither
after a refused connect, nor while one is in progress, nor behind a `CT_CONN_OK`
that was set after the socket had been closed, nor after the peer has reset the
connection. -/
def Link.ClosesInTime (l : Link) : Prop :=
  l.clietnStatus = .connClose ∨
    l.socket ≠ none ∧ l.clietnStatus ≠ .error ∧ l.connecting = 0 ∧
      (l.clietnStatus = .connOk → l.opened = true) ∧ l.lost = false

/-- `do_close` comes behind its guard or finds a socket that is open and whose
connect has succeeded. -/
def Link.FindsConnected (l : Link) : Prop :=
  l.clietnStatus = .connClose ∨ l.opened = true ∧ l.connected = true

instance (l : Link) : Decidable l.FindsConnected := inferInstanceAs (Decidable (_ ∨ _))

theorem Link.present_of_opened {l : Link} (opened : l.opened = true) : l.socket ≠ none := by
  intro gone
  rw [(Link.socket_eq_none gone).1] at opened
  cases opened

/-- It finds such a socket and does not throw exactly when it comes in time. -/
theorem Link.Sound.closesInTime_iff {l : Link} (sound : l.Sound) :
    l.FindsConnected ∧ l.doClose ≠ none ↔ l.ClosesInTime := by
  constructor
  · rintro ⟨closed | ⟨opened, connected⟩, calm⟩
    · exact .inl closed
    · by_cases closed : l.clietnStatus = .connClose
      · exact .inl closed
      have present := Link.present_of_opened opened
      obtain ⟨usable, idle, late⟩ := (sound.established_iff present closed).mp ⟨opened, connected⟩
      refine .inr ⟨present, usable, idle, late, (sound.shuts_iff connected).mp ?_⟩
      by_contra fails
      exact calm (Link.doClose_eq_none.mpr ⟨closed, present, fun up => fails up.2⟩)
  · rintro (closed | ⟨present, usable, idle, late, lasting⟩)
    · exact ⟨.inl closed, fun throws => (Link.doClose_eq_none.mp throws).1 closed⟩
    · by_cases closed : l.clietnStatus = .connClose
      · exact ⟨.inl closed, fun throws => (Link.doClose_eq_none.mp throws).1 closed⟩
      obtain ⟨opened, connected⟩ :=
        (sound.established_iff present closed).mpr ⟨usable, idle, late⟩
      refine ⟨.inr ⟨opened, connected⟩, fun throws => ?_⟩
      exact (Link.doClose_eq_none.mp throws).2.2 ⟨opened, (sound.shuts_iff connected).mpr lasting⟩

namespace DestroyedClient

/-- The event calls `do_close`. -/
def callsDoClose (c : DestroyedClient) : Event → Bool
  | .loop event => (c.loop.closesOn event).isSome
  | .destroy => c.loop.emptied && !c.destroying
  | .deleteSocket => false

/-- A call of `do_close` that passes its guard finds the socket connected, and
`shutdown` does not throw. -/
structure ClosesSafely (c : DestroyedClient) (event : Event) (next : DestroyedClient) : Prop where
  found : c.callsDoClose event = true → c.loop.link.FindsConnected
  calm : next.crash ≠ some .threw

/-- Every call of `do_close` finds the client in a state in which it may close. -/
def ClosedInTime (c : DestroyedClient) (event : Event) (_ : DestroyedClient) : Prop :=
  c.callsDoClose event = true → c.loop.link.ClosesInTime

instance (c : DestroyedClient) (event : Event) (next : DestroyedClient) :
    Decidable (ClosesSafely c event next) :=
  decidable_of_iff ((c.callsDoClose event = true → c.loop.link.FindsConnected) ∧
      next.crash ≠ some .threw)
    ⟨fun safe => ⟨safe.1, safe.2⟩, fun safe => ⟨safe.found, safe.calm⟩⟩

variable {layout : IntLayout} {c next : DestroyedClient} {event : Event}

private theorem callsDoClose_of_nullSocket {own : ClientLoop.Event}
    (gone : c.loop.link.socket = none)
    (uses : c.loop.usesSocket own = true) : c.callsDoClose (.loop own) = false := by
  cases closes : c.loop.closesOn own with
  | none => simp [callsDoClose, closes]
  | some link =>
    exfalso
    have down := (Link.socket_eq_none gone).1
    rcases ClientLoop.closesOn_eq_some closes with
      ⟨_, _, _, _, _, opened, _⟩ | ⟨_, _, _, _, _, opened, _⟩ | ⟨index, rfl, asked, _⟩
    · cases opened.symm.trans down
    · cases opened.symm.trans down
    · simp [ClientLoop.usesSocket, asked] at uses

private theorem threw_iff (taken : step layout c event = some next)
    (called : c.callsDoClose event = true) :
    next.crash = some .threw ↔ c.loop.link.doClose = none := by
  obtain ⟨running, ⟨own, crash, rfl, crashes, rfl⟩ | ⟨own, loop, rfl, calm, transition, rfl⟩ |
    ⟨rfl, emptied, free, closed⟩ | ⟨rfl, busy, rfl⟩⟩ := step_cases taken
  · cases crash with
    | threw => simp [(ClientLoop.crash_eq_threw.mp crashes).2]
    | nullSocket =>
      obtain ⟨gone, uses⟩ := ClientLoop.crash_eq_nullSocket.mp crashes
      cases called.symm.trans (callsDoClose_of_nullSocket gone uses)
  · simp only [running, reduceCtorEq, false_iff]
    intro throws
    cases calm.symm.trans (ClientLoop.crash_eq_threw.mpr ⟨called, throws⟩)
  · rcases closed with ⟨throws, rfl⟩ | ⟨link, closing, rfl⟩
    · simp [throws]
    · simp [running, closing]
  · cases called

private theorem calm_of_quiet (taken : step layout c event = some next)
    (quiet : c.callsDoClose event = false) : next.crash ≠ some .threw := by
  obtain ⟨running, ⟨own, crash, rfl, crashes, rfl⟩ | ⟨own, loop, rfl, calm, transition, rfl⟩ |
    ⟨rfl, emptied, free, closed⟩ | ⟨rfl, busy, rfl⟩⟩ := step_cases taken
  · cases crash with
    | threw =>
      have called : c.callsDoClose (.loop own) = true := (ClientLoop.crash_eq_threw.mp crashes).1
      cases called.symm.trans quiet
    | nullSocket => simp
  · simp [running]
  · simp [callsDoClose, emptied, free] at quiet
  · simp [running]

private theorem closesSafely_iff (sound : c.loop.link.Sound)
    (taken : step layout c event = some next) :
    ClosesSafely c event next ↔ ClosedInTime c event next := by
  cases called : c.callsDoClose event with
  | false =>
    refine iff_of_true ⟨?_, calm_of_quiet taken called⟩ ?_
    · exact fun calls => by cases called.symm.trans calls
    · exact fun calls => by cases called.symm.trans calls
  | true =>
    have threw := threw_iff taken called
    have exactly := sound.closesInTime_iff
    constructor
    · exact fun safe _ => exactly.mp ⟨safe.found called, mt threw.mpr safe.calm⟩
    · intro early
      obtain ⟨found, calm⟩ := exactly.mpr (early called)
      exact ⟨fun _ => found, mt threw.mp calm⟩

/-- `do_close` always finds a connected socket, and never throws, in exactly the
runs in which each of its calls comes in time. -/
theorem closesSafely_iff_closedInTime (layout : IntLayout) (csq : ClientSendQueue)
    (schedule : List Event) :
    (machine layout).AllSteps ClosesSafely (start csq) schedule ↔
      (machine layout).AllSteps ClosedInTime (start csq) schedule := by
  apply Machine.allSteps_iff fun c => c.loop.link.Sound
  · exact fun sound taken => closesSafely_iff sound taken
  · exact fun sound taken _ => sound_step sound taken
  · exact .init

/-- The first connect is refused, and the user closes the client. -/
def refusedThenClosed : List Event :=
  [.loop (.handleConnect 0 true), .loop .close, .loop (.runPosted 0)]

theorem refusedThenClosed_throws :
    ¬ (machine .littleEndian).AllSteps ClosesSafely (start .on) refusedThenClosed := by
  decide +kernel

end DestroyedClient

end RpcLoop
