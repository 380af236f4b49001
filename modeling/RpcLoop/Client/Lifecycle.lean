import RpcLoop.Client.Transition

/-! How `clietn_status` fits the socket. The handlers change the two separately;
what follows holds of a client after any sequence of its steps. -/

namespace RpcLoop

open Foundation Asio Shared

namespace Link

/-- The connects that neither succeeded nor failed yet. -/
def connecting (l : Link) : Nat := Operation.inProgress l.connects

/-- The status after the constructor, and what it says about the socket. A connect
is in progress exactly while the socket is open and not connected, and `shutdown`
answers as it is documented. -/
structure Sound (l : Link) : Prop where
  known : l.clietnStatus = .conn ∨ l.clietnStatus = .connOk ∨ l.clietnStatus = .connClose ∨
    l.clietnStatus = .error
  closed : l.clietnStatus = .connClose ∨ l.clietnStatus = .error → l.opened = false
  opens : l.clietnStatus = .conn → l.socket ≠ none → l.opened = true
  pending : l.connecting = if l.opened && !l.connected then 1 else 0
  up : l.connected = true → l.opened = true
  documented : ∀ socket, l.socket = some socket → socket.Documented

variable {l next : Link}

theorem Sound.of_connection (sound : Sound l) (same : next.connection = l.connection) :
    Sound next := by
  rw [eq_of_connection same.symm]
  exact ⟨sound.known, sound.closed, sound.opens, sound.pending, sound.up, sound.documented⟩

/-- A client without a socket stays without one. -/
theorem socket_eq_none (gone : l.socket = none) : l.opened = false ∧ l.connected = false := by
  simp [opened, connected, gone]

/-- A closed socket has no connect in progress. -/
theorem Sound.idle (sound : Sound l) (closed : l.opened = false) : l.connecting = 0 := by
  simp [sound.pending, closed]

theorem Sound.ofClosed {socket : Option Socket} {status : ClientStatusType}
    (known : status = .connOk ∨ status = .connClose ∨ status = .error)
    (closed : socket.any (·.isOpen) = false) (down : socket.any (·.connected) = false)
    (documented : ∀ found, socket = some found → found.Documented)
    (idle : Operation.inProgress next.connects = 0) :
    Sound { next with socket := socket, clietnStatus := status } where
  known := .inr known
  closed _ := closed
  opens connecting := by
    have connecting : status = .conn := connecting
    rcases known with rfl | rfl | rfl <;> cases connecting
  pending := by simp [Link.connecting, opened, closed, idle]
  up connected := by
    have connected : socket.any (·.connected) = true := connected
    rw [down] at connected
    cases connected
  documented := documented

theorem documented_new (isOpen : Bool) (socket : Socket)
    (new : some { isOpen := isOpen, connected := false } = some socket) : socket.Documented := by
  cases new
  exact ⟨nofun, nofun⟩

theorem Sound.init : Sound Link.init.doConnect where
  known := .inl rfl
  closed status := by rcases status with status | status <;> cases status
  opens _ _ := rfl
  pending := rfl
  up _ := rfl
  documented := documented_new true

theorem Sound.doConnect (sound : Sound l) (closed : l.opened = false) : Sound l.doConnect := by
  rcases l.doConnect_cases with ⟨_, same⟩ | ⟨_, same⟩
  · rw [same]
    exact sound
  · rw [same]
    refine ⟨.inl rfl, ?_, fun _ _ => rfl, ?_, fun _ => rfl, documented_new true⟩
    · intro status
      rcases status with status | status <;> cases status
    · have idle := sound.idle closed
      simp only [connecting] at idle ⊢
      rw [Operation.inProgress_append _ rfl, idle]
      rfl

theorem Sound.doClose (sound : Sound l) (closing : l.doClose = some next) : Sound next := by
  rcases doClose_eq_some closing with ⟨_, rfl⟩ | ⟨_, gone, rfl⟩ | ⟨_, _, rfl⟩
  · exact sound
  · obtain ⟨closed, down⟩ := socket_eq_none gone
    exact .ofClosed (.inr (.inl rfl)) closed down sound.documented (sound.idle closed)
  · exact .ofClosed (.inr (.inl rfl)) rfl rfl (documented_new false) (Operation.inProgress_abort _)

theorem Sound.connected (sound : Sound l) {index : Nat} {op : Operation Unit}
    (start : l.connects[index]? = some op) (live : op.state = .live) (unlost : l.lost = false) :
    Sound { l with
      socket := l.establish
      connects := l.connects.set index { op with state := .done } } := by
  have fewer := Operation.inProgress_set { op with state := .done } start live rfl
  have pending := sound.pending
  simp only [connecting] at pending
  cases found : l.socket with
  | none =>
    obtain ⟨closed, _⟩ := socket_eq_none found
    simp only [closed, Bool.false_and, Bool.false_eq_true, if_false] at pending
    omega
  | some socket =>
    have opened : socket.isOpen = true := by
      cases state : socket.isOpen with
      | true => rfl
      | false =>
        simp [opened, found, state] at pending
        omega
    have one : Operation.inProgress l.connects ≤ 1 := by
      rw [pending]
      split <;> omega
    refine ⟨sound.known, ?_, ?_, ?_, ?_, ?_⟩
    · intro status
      have closed := sound.closed status
      simp [Link.opened, found, opened] at closed
    · intro _ _
      simpa [Link.opened, establish, found] using opened
    · simp only [connecting, Link.connected, Link.opened, establish, found, Option.map_some,
        Option.any_some]
      simp
      omega
    · intro _
      simpa [Link.opened, establish, found] using opened
    · intro after same
      simp only [establish, found, Option.map_some, Option.some.injEq] at same
      subst same
      refine ⟨fun _ _ => rfl, fun lost => ?_⟩
      simp only [Link.lost, found, Option.any_some] at unlost
      cases lost.symm.trans unlost

theorem Sound.disturbed (sound : Sound l) {socket after : Socket} (found : l.socket = some socket)
    (upset : Disturbs socket after) : Sound { l with socket := some after } where
  known := sound.known
  closed status := by
    have closed := sound.closed status
    rw [Link.opened, found, Option.any_some, upset.up] at closed
    cases closed
  opens _ _ := upset.isOpen
  pending := by
    have pending := sound.pending
    simpa only [connecting, Link.opened, Link.connected, found, Option.any_some, upset.up,
      upset.isOpen, upset.connected] using pending
  up _ := upset.isOpen
  documented _ same := by
    cases same
    exact upset.documented

theorem Sound.connectOk (sound : Sound l) {index : Nat} {op : Operation Unit}
    (start : l.connects[index]? = some op) (done : op.state = .done) :
    Sound { l with connects := l.connects.eraseIdx index, clietnStatus := .connOk } where
  known := .inr (.inl rfl)
  closed status := by rcases status with status | status <;> cases status
  opens status := by cases status
  pending := by
    have same := Operation.inProgress_eraseIdx start (by rw [done]; simp)
    exact same.trans sound.pending
  up := sound.up
  documented := sound.documented

theorem Sound.connectFailed (l : Link) : Sound { l with clietnStatus := .error }.resetSocket :=
  .ofClosed (.inr (.inr rfl)) rfl rfl (documented_new false) (Operation.inProgress_abort _)

theorem Sound.step (sound : Sound l) (moves : l.Moves next) : Sound next := by
  cases moves with
  | stays same => exact sound.of_connection same
  | reopens closed same => exact (sound.doConnect closed).of_connection same
  | succeeds index op start live unlost same =>
    exact (sound.connected start live unlost).of_connection same
  | connectOk index op start done same => exact (sound.connectOk start done).of_connection same
  | connectFailed index op start failed same =>
    exact (connectFailed { l with connects := l.connects.eraseIdx index }).of_connection same
  | closes link closing same => exact (sound.doClose closing).of_connection same
  | disturbed socket after found upset same =>
    exact (sound.disturbed found upset).of_connection same

/-- Whether the socket is open and its connect has succeeded says the same as the
status, the connects in progress and, only behind a `CT_CONN_OK`, the socket. -/
theorem Sound.established_iff (sound : Sound l) (present : l.socket ≠ none)
    (going : l.clietnStatus ≠ .connClose) :
    l.opened = true ∧ l.connected = true ↔
      l.clietnStatus ≠ .error ∧ l.connecting = 0 ∧
        (l.clietnStatus = .connOk → l.opened = true) := by
  constructor
  · rintro ⟨opened, connected⟩
    refine ⟨fun failed => ?_, ?_, fun _ => opened⟩
    · rw [sound.closed (.inr failed)] at opened
      cases opened
    · simp [sound.pending, opened, connected]
  · rintro ⟨usable, idle, late⟩
    have opened : l.opened = true := by
      rcases sound.known with connecting | up | closed | failed
      · exact sound.opens connecting present
      · exact late up
      · exact absurd closed going
      · exact absurd failed usable
    refine ⟨opened, ?_⟩
    cases connected : l.connected with
    | true => rfl
    | false =>
      rw [sound.pending, opened, connected] at idle
      cases idle

/-- When `do_close` throws. -/
theorem doClose_eq_none : l.doClose = none ↔ l.clietnStatus ≠ .connClose ∧ l.socket ≠ none ∧
    ¬ (l.opened = true ∧ l.shuts = true) := by
  unfold doClose opened shuts
  by_cases already : l.clietnStatus = .connClose
  · simp [already]
  · cases found : l.socket with
    | none => simp [already]
    | some socket => simp [already]

/-- On a connection that was established `shutdown` succeeds until it is lost. -/
theorem Sound.shuts_iff (sound : Sound l) (connected : l.connected = true) :
    l.shuts = true ↔ l.lost = false := by
  cases found : l.socket with
  | none => simp [Link.connected, found] at connected
  | some socket =>
    obtain ⟨established, lost⟩ := sound.documented socket found
    have up : socket.connected = true := by simpa [Link.connected, found] using connected
    simp only [shuts, Link.lost, found, Option.any_some]
    constructor
    · intro shuts
      cases gone : socket.lost with
      | false => rfl
      | true => cases shuts.symm.trans (lost gone)
    · exact established up

/-- After `do_close` the socket is closed. -/
theorem Sound.doClose_opened (sound : Sound l) (closing : l.doClose = some next) :
    next.opened = false :=
  (sound.doClose closing).closed (.inl (doClose_status closing))

end Link

namespace ClientLoop

variable {layout : IntLayout} {s next : ClientLoop} {event : Event}

/-- Every step keeps the status in line with the socket. -/
theorem sound_step (sound : s.link.Sound) (transition : Transition layout s event next) :
    next.link.Sound :=
  sound.step (link_moves transition)

theorem sound_reaches {csq : ClientSendQueue} (reached : (machine layout).Reaches (start csq) s) :
    s.link.Sound :=
  reached.invariant (fun sound taken => sound_step sound (transition_of_step taken)) .init

private theorem present_step (present : s.link.socket.isSome = true)
    (transition : Transition layout s event next) : next.link.socket.isSome = true :=
  (link_moves transition).present present

theorem present_reaches {csq : ClientSendQueue}
    (reached : (machine layout).Reaches (start csq) s) : s.link.socket.isSome = true :=
  reached.invariant (fun present taken => present_step present (transition_of_step taken)) rfl

/-- The `do_close` that `close` posted. -/
theorem runPosted_doClose {index : Nat} (asked : s.posted[index]? = some .doClose)
    (taken : step layout s (.runPosted index) = some next) :
    ∃ link, s.link.doClose = some link ∧
      next = { s with link := link, posted := s.posted.eraseIdx index } := by
  simp only [step, runPosted, asked, Option.bind_eq_bind, Option.bind_some] at taken
  exact doClose_cases taken

/-! ### Handlers on a closed socket -/

/-- The handler of a read that finds the socket closed connects it again. -/
theorem handleRead_of_closed (layout : IntLayout) {index : Nat} {error : Bool}
    {op : Operation Receive}
    (started : s.link.reads[index]? = some op) (delivers : op.Delivers error)
    (closed : s.link.opened = false) (present : s.link.socket.isSome = true) :
    step layout s (.handleRead index error) =
      some { s with link := (s.endRead index).doConnect } := by
  have asked := Link.isOpen_of_closed (l := s.endRead index) closed present
  simp only [endRead] at asked
  simp [step, invokeRead, started, delivers, ifOpen, asked, endRead]

/-- So does the handler of a write. -/
theorem handleWrite_of_closed (layout : IntLayout) {index : Nat} {error : Bool}
    {op : Operation Outgoing}
    (started : s.link.writes[index]? = some op) (delivers : op.Delivers error)
    (closed : s.link.opened = false) (present : s.link.socket.isSome = true) :
    step layout s (.handleWrite index error) =
      some { s with link := (s.endWrite index).doConnect } := by
  have asked := Link.isOpen_of_closed (l := s.endWrite index) closed present
  simp only [endWrite] at asked
  simp [step, invokeWrite, started, delivers, ifOpen, asked, endWrite]

/-- The handler of a connect that succeeded before the socket was closed starts a
read, which ends at once. -/
theorem handleConnect_of_closed (layout : IntLayout) {index : Nat} {op : Operation Unit}
    (started : s.link.connects[index]? = some op) (done : op.state = .done)
    (closed : s.link.opened = false) (present : s.link.socket.isSome = true) :
    ∃ after, step layout s (.handleConnect index false) = some after ∧
      after.link = { s.endConnect index with
        clietnStatus := .connOk
        reads := s.link.reads ++
          [{ what := .head {}, conn := s.link.attempt, state := .aborted }] } := by
  have reading := Link.asyncRead_of_closed
    (l := { s.endConnect index with clietnStatus := .connOk }) closed present (.head {})
  simp only [endConnect] at reading
  obtain ⟨erased, erases, same⟩ := eraseMsgTimer_cases { s with link := { s.endConnect index with
    clietnStatus := .connOk
    reads := s.link.reads ++
      [{ what := .head {}, conn := s.link.attempt, state := .aborted }] } }
  simp only [endConnect] at same erases
  have delivers : op.Delivers false := done
  refine ⟨{ erased with eTimer := s.eTimer.expiresFromNow.asyncWait }, ?_, ?_⟩
  · simp [step, invokeConnect, started, delivers, handleConnect, doReadHead, reading, same]
  · exact congrArg ClientLoop.link erases.rest

end ClientLoop

end RpcLoop
