import RpcLoop.Client.Lifecycle

/-! A client with its `destroy`, and the two ways in which its code can crash:
`shutdown` throws where it fails, and the handlers follow `socket_` without
looking at it. The io thread goes on while `destroy` runs. -/

namespace RpcLoop

open Foundation Asio Shared

inductive Crash where
  | threw
  | nullSocket
  deriving DecidableEq, Repr

namespace ClientLoop

/-- The link on which the code of an event calls `do_close`. -/
def closesOn (s : ClientLoop) : Event → Option Link
  | .handleRead index error => do
    let op ← s.link.reads[index]?
    if op.Delivers error ∧ error = true ∧ s.link.opened = true then some (s.endRead index)
    else none
  | .handleWrite index error => do
    let op ← s.link.writes[index]?
    if op.Delivers error ∧ error = true ∧ s.link.opened = true then some (s.endWrite index)
    else none
  | .runPosted index =>
    match s.posted[index]? with
    | some .doClose => some s.link
    | _ => none
  | _ => none

/-- The code of an event follows `socket_`: `is_open` does, and so do the
functions that start to read or to write. -/
def usesSocket (s : ClientLoop) : Event → Bool
  | .isOpen => true
  | .handleConnect index error => s.link.connects[index]?.any fun op => op.Delivers error ∧ ¬ error
  | .handleRead index error => s.link.reads[index]?.any fun op => op.Delivers error
  | .handleWrite index error => s.link.writes[index]?.any fun op => op.Delivers error
  | .runPosted index =>
    match s.posted[index]? with
    | some .doWrite => s.link.clietnStatus = .connOk ∧ s.writeMsgQueue.items ≠ []
    | some (.doWriteMsg _) => s.link.clietnStatus = .connOk
    | _ => false
  | _ => false

/-- How the code of an event crashes. -/
def crash (s : ClientLoop) (event : Event) : Option Crash :=
  if (s.closesOn event).any (·.doClose.isNone) then some .threw
  else if s.link.socket.isNone ∧ s.usesSocket event then some .nullSocket
  else none

/-- The loop at the start of `destroy` is over. -/
def emptied (s : ClientLoop) : Bool := s.writeMsgQueue.size == 0 && s.recvMsgMap.size == 0

/-- `delete socket_; socket_=nullptr;` -/
def deleteSocket (s : ClientLoop) : ClientLoop :=
  { s with link := { s.link.abortAll with socket := none } }

end ClientLoop

/-- A client that can be destroyed; between `do_close` and the deletion of the
socket `destroy` is under way. -/
structure DestroyedClient where
  loop : ClientLoop
  destroying : Bool := false
  crash : Option Crash := none

namespace DestroyedClient

inductive Event where
  | loop (event : ClientLoop.Event)
  | destroy
  | deleteSocket

def start (csq : ClientSendQueue) : DestroyedClient where
  loop := .start csq

variable (layout : IntLayout)

/-- A step of the client; the step in which it crashes is the last one. -/
def loopStep (c : DestroyedClient) (event : ClientLoop.Event) : Option DestroyedClient :=
  match c.loop.crash event with
  | some crash => some { c with crash := some crash }
  | none => do
    let loop ← c.loop.step layout event
    return { c with loop := loop }

/-- `destroy` up to the end of `do_close`. -/
def destroy (c : DestroyedClient) : Option DestroyedClient :=
  if c.loop.emptied ∧ ¬ c.destroying then
    match c.loop.doClose with
    | none => some { c with crash := some .threw }
    | some loop => some { c with loop := loop, destroying := true }
  else none

def step (c : DestroyedClient) (event : Event) : Option DestroyedClient :=
  if c.crash ≠ none then none
  else
    match event with
    | .loop event => c.loopStep layout event
    | .destroy => c.destroy
    | .deleteSocket =>
      if c.destroying then some { c with loop := c.loop.deleteSocket, destroying := false }
      else none

def machine : Machine DestroyedClient Event where
  step := step layout

end DestroyedClient

namespace ClientLoop

variable {layout : IntLayout} {s next : ClientLoop} {event : Event}

private theorem doClose_endRead (s : ClientLoop) (index : Nat) :
    (s.endRead index).doClose = none ↔ s.link.doClose = none := by
  rw [Link.doClose_eq_none, Link.doClose_eq_none]
  exact Iff.rfl

private theorem doClose_endWrite (s : ClientLoop) (index : Nat) :
    (s.endWrite index).doClose = none ↔ s.link.doClose = none := by
  rw [Link.doClose_eq_none, Link.doClose_eq_none]
  exact Iff.rfl

/-- The three events whose code calls `do_close`. -/
theorem closesOn_eq_some {link : Link} (closes : s.closesOn event = some link) :
    (∃ index op, event = .handleRead index true ∧ s.link.reads[index]? = some op ∧
      op.Delivers true ∧ s.link.opened = true ∧ link = s.endRead index) ∨
    (∃ index op, event = .handleWrite index true ∧ s.link.writes[index]? = some op ∧
      op.Delivers true ∧ s.link.opened = true ∧ link = s.endWrite index) ∨
    (∃ index, event = .runPosted index ∧ s.posted[index]? = some .doClose ∧ link = s.link) := by
  cases event with
  | handleRead index error =>
    simp only [closesOn, Option.bind_eq_bind, Option.bind_eq_some_iff] at closes
    obtain ⟨op, started, closes⟩ := closes
    split at closes
    · rename_i called
      obtain ⟨delivers, rfl, opened⟩ := called
      exact .inl ⟨index, op, rfl, started, delivers, opened, (Option.some.inj closes).symm⟩
    · cases closes
  | handleWrite index error =>
    simp only [closesOn, Option.bind_eq_bind, Option.bind_eq_some_iff] at closes
    obtain ⟨op, started, closes⟩ := closes
    split at closes
    · rename_i called
      obtain ⟨delivers, rfl, opened⟩ := called
      exact .inr (.inl ⟨index, op, rfl, started, delivers, opened, (Option.some.inj closes).symm⟩)
    · cases closes
  | runPosted index =>
    simp only [closesOn] at closes
    split at closes
    · rename_i asked
      exact .inr (.inr ⟨index, rfl, asked, (Option.some.inj closes).symm⟩)
    · cases closes
  | _ => cases closes

private theorem closesOn_doClose {link : Link} (closes : s.closesOn event = some link) :
    link.doClose = none ↔ s.link.doClose = none := by
  rcases closesOn_eq_some closes with ⟨index, _, _, _, _, _, rfl⟩ | ⟨index, _, _, _, _, _, rfl⟩ |
    ⟨_, _, _, rfl⟩
  · exact doClose_endRead s index
  · exact doClose_endWrite s index
  · exact Iff.rfl

private theorem map_doClose (s : ClientLoop) : s.doClose.map ClientLoop.link = s.link.doClose := by
  unfold doClose
  cases s.link.doClose with
  | none => rfl
  | some link => rfl

/-- The client takes such a step exactly when `do_close` does not throw in it. -/
theorem step_closesOn (layout : IntLayout) {link : Link} (closes : s.closesOn event = some link) :
    (step layout s event).map ClientLoop.link = link.doClose := by
  rcases closesOn_eq_some closes with ⟨index, op, rfl, started, delivers, opened, rfl⟩ |
    ⟨index, op, rfl, started, delivers, opened, rfl⟩ | ⟨index, rfl, asked, rfl⟩
  · have answer := Link.isOpen_of_opened (l := s.endRead index) opened
    simp only [endRead] at answer
    cases kind : op.what with
    | head t =>
      have taken : step layout s (.handleRead index true) =
          doClose { s with link := s.endRead index } := by
        simp [step, invokeRead, started, delivers, ifOpen, answer, kind, handleReadHeader, endRead]
      rw [taken, map_doClose]
    | msg p length =>
      have taken : step layout s (.handleRead index true) =
          doClose { s.store p ((s.entries p).setStatus .error) with link := s.endRead index } := by
        simp [step, invokeRead, started, delivers, ifOpen, answer, kind, handleReadMsg, store,
          endRead]
      rw [taken, map_doClose]
  · have answer := Link.isOpen_of_opened (l := s.endWrite index) opened
    simp only [endWrite] at answer
    have taken : step layout s (.handleWrite index true) =
        doClose { s with link := s.endWrite index } := by
      simp [step, invokeWrite, started, delivers, ifOpen, answer, handleWrite, endWrite]
    rw [taken, map_doClose]
  · have taken : step layout s (.runPosted index) =
        doClose { s with posted := s.posted.eraseIdx index } := by
      simp [step, runPosted, asked]
    rw [taken, map_doClose]

/-- Without a socket no code that follows it goes on. -/
theorem step_usesSocket (gone : s.link.socket = none) (uses : s.usesSocket event = true) :
    step layout s event = none := by
  cases event with
  | isOpen => simp [step, Link.isOpen, gone]
  | handleConnect index error =>
    cases started : s.link.connects[index]? with
    | none => simp [usesSocket, started] at uses
    | some op =>
      obtain ⟨_, rfl⟩ : op.Delivers error ∧ error = false := by
        simpa [usesSocket, started] using uses
      simp [step, invokeConnect, started, handleConnect, doReadHead, Link.asyncRead, gone]
  | handleRead index error =>
    cases started : s.link.reads[index]? <;>
      simp [step, invokeRead, started, ifOpen, Link.isOpen, gone]
  | handleWrite index error =>
    cases started : s.link.writes[index]? <;>
      simp [step, invokeWrite, started, ifOpen, Link.isOpen, gone]
  | runPosted index =>
    simp only [usesSocket] at uses
    split at uses
    · rename_i asked
      obtain ⟨status, found⟩ := of_decide_eq_true uses
      cases items : s.writeMsgQueue.items with
      | nil => exact absurd items found
      | cons m rest =>
        simp [step, runPosted, asked, doWrite, status, SafeQueue.pop, items, sendMsg,
          Link.asyncWrite, gone]
    · rename_i m asked
      have status := of_decide_eq_true uses
      simp [step, runPosted, asked, doWriteMsg, status, sendMsg, Link.asyncWrite, gone]
    · cases uses
  | _ => cases uses

theorem crash_eq_threw :
    s.crash event = some .threw ↔ (s.closesOn event).isSome = true ∧ s.link.doClose = none := by
  unfold crash
  cases closes : s.closesOn event with
  | none => simp
  | some link =>
    have same := closesOn_doClose closes
    by_cases throws : link.doClose = none
    · simp [throws, same.mp throws]
    · have calm := mt same.mpr throws
      cases closing : link.doClose with
      | none => exact absurd closing throws
      | some after => simp [calm, closing]

theorem crash_eq_nullSocket :
    s.crash event = some .nullSocket ↔ s.link.socket = none ∧ s.usesSocket event = true := by
  constructor
  · intro crashes
    unfold crash at crashes
    split at crashes
    · cases crashes
    · split at crashes
      · rename_i _ null
        exact ⟨Option.isNone_iff_eq_none.mp null.1, null.2⟩
      · cases crashes
  · rintro ⟨gone, uses⟩
    have calm : ¬ s.crash event = some .threw := by
      intro threw
      have throws := (crash_eq_threw.mp threw).2
      exact (Link.doClose_eq_none.mp throws).2.1 gone
    unfold crash at calm ⊢
    split at calm
    · exact absurd rfl calm
    · rename_i quiet
      rw [if_neg quiet, if_pos ⟨Option.isNone_iff_eq_none.mpr gone, uses⟩]

end ClientLoop

namespace DestroyedClient

variable {layout : IntLayout} {c next : DestroyedClient}

/-- What the steps of a client that can be destroyed do. -/
theorem step_cases {event : Event} (taken : step layout c event = some next) :
    c.crash = none ∧
    ((∃ own crash, event = .loop own ∧ c.loop.crash own = some crash ∧
        next = { c with crash := some crash }) ∨
      (∃ own loop, event = .loop own ∧ c.loop.crash own = none ∧
        ClientLoop.Transition layout c.loop own loop ∧ next = { c with loop := loop }) ∨
      (event = .destroy ∧ c.loop.emptied = true ∧ c.destroying = false ∧
        (c.loop.link.doClose = none ∧ next = { c with crash := some .threw } ∨
          ∃ link, c.loop.link.doClose = some link ∧
            next = { c with loop := { c.loop with link := link }, destroying := true })) ∨
      (event = .deleteSocket ∧ c.destroying = true ∧
        next = { c with loop := c.loop.deleteSocket, destroying := false })) := by
  unfold step at taken
  split at taken
  · cases taken
  · rename_i running
    refine ⟨Decidable.not_not.mp running, ?_⟩
    cases event with
    | loop own =>
      simp only [loopStep] at taken
      cases crashes : c.loop.crash own with
      | some crash =>
        simp only [crashes, Option.some.injEq] at taken
        exact .inl ⟨own, crash, rfl, crashes, taken.symm⟩
      | none =>
        simp only [crashes, Option.bind_eq_bind, Option.bind_eq_some_iff, Option.pure_def] at taken
        obtain ⟨loop, step, same⟩ := taken
        exact .inr (.inl ⟨own, loop, rfl, crashes, ClientLoop.transition_of_step step,
          (Option.some.inj same).symm⟩)
    | destroy =>
      simp only [destroy] at taken
      split at taken
      · rename_i ready
        obtain ⟨emptied, free⟩ := ready
        refine .inr (.inr (.inl ⟨rfl, emptied, by simpa using free, ?_⟩))
        cases closing : c.loop.link.doClose with
        | none =>
          simp only [ClientLoop.doClose, closing, Option.bind_eq_bind, Option.bind_none,
            Option.some.injEq] at taken
          exact .inl ⟨rfl, taken.symm⟩
        | some link =>
          simp only [ClientLoop.doClose, closing, Option.bind_eq_bind, Option.bind_some,
            Option.pure_def, Option.some.injEq] at taken
          exact .inr ⟨link, rfl, taken.symm⟩
      · cases taken
    | deleteSocket =>
      simp only at taken
      split at taken
      · rename_i busy
        exact .inr (.inr (.inr ⟨rfl, busy, (Option.some.inj taken).symm⟩))
      · cases taken

/-- `destroy` throws, or it has closed the socket. -/
theorem destroy_cases (taken : step layout c .destroy = some next) :
    c.crash = none ∧
    (c.loop.link.doClose = none ∧ next = { c with crash := some .threw } ∨
      ∃ link, c.loop.link.doClose = some link ∧
        next = { c with loop := { c.loop with link := link }, destroying := true }) := by
  obtain ⟨running, ⟨_, _, called, _⟩ | ⟨_, _, called, _⟩ | ⟨_, _, _, closed⟩ | ⟨called, _⟩⟩ :=
    step_cases taken
  · cases called
  · cases called
  · exact ⟨running, closed⟩
  · cases called

private theorem sound_deleteSocket {l : Link} (sound : l.Sound) :
    Link.Sound { l.abortAll with socket := none } where
  known := sound.known
  closed _ := rfl
  opens _ present := absurd rfl present
  pending := Operation.inProgress_abort _
  up connected := by cases connected
  documented _ found := by cases found

theorem sound_step {event : Event} (sound : c.loop.link.Sound)
    (taken : step layout c event = some next) : next.loop.link.Sound := by
  obtain ⟨_, ⟨_, _, _, _, rfl⟩ | ⟨own, loop, _, _, transition, rfl⟩ |
    ⟨_, _, _, ⟨_, rfl⟩ | ⟨link, closing, rfl⟩⟩ | ⟨_, _, rfl⟩⟩ := step_cases taken
  · exact sound
  · exact ClientLoop.sound_step sound transition
  · exact sound
  · exact sound.doClose closing
  · exact sound_deleteSocket sound

theorem sound_reaches {csq : ClientSendQueue}
    (reached : (machine layout).Reaches (start csq) c) : c.loop.link.Sound := by
  have keeps : ∀ {before : DestroyedClient} {event : Event} {after : DestroyedClient},
      before.loop.link.Sound → (machine layout).step before event = some after →
      after.loop.link.Sound := fun sound taken => sound_step sound taken
  exact reached.invariant keeps Link.Sound.init

end DestroyedClient

end RpcLoop
