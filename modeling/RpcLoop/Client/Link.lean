import RpcLoop.Asio.Operation
import RpcLoop.Message.Struct

/-! The connection part of `client_loop`: the socket, the connection status and
the operations outstanding on the socket. The number of the connection attempt
is recorded beside them; no handler of the program knows it. -/

namespace RpcLoop

open Asio

/-- A message for the wire. Its buffer is complete and no longer changes. -/
structure Outgoing where
  addr : Ptr
  obj : RpcStruct

/-- What a read fills: a temporary header, or the buffer behind an object's header. -/
inductive Receive where
  | head (t : RpcStructHead)
  | msg (p : Ptr) (length : Int32)

/-- A socket: `connected` says that its connect has succeeded, `lost` that its
connection was refused or reset, and `shuts` what `shutdown` would answer now. -/
structure Socket where
  isOpen : Bool
  connected : Bool
  lost : Bool := false
  shuts : Bool := false
  deriving DecidableEq, Repr

/-- What is documented of `shutdown`: it succeeds on an established connection and
fails on one that is lost. While a connect is in progress systems differ. -/
def Socket.Documented (socket : Socket) : Prop :=
  (socket.connected = true → socket.lost = false → socket.shuts = true) ∧
    (socket.lost = true → socket.shuts = false)

instance (socket : Socket) : Decidable socket.Documented := inferInstanceAs (Decidable (_ ∧ _))

structure Link where
  socket : Option Socket
  attempt : Nat
  clietnStatus : ClientStatusType
  connects : List (Operation Unit)
  reads : List (Operation Receive)
  writes : List (Operation Outgoing)

namespace Link

/-- A new operation on the socket; on a closed one it ends at once with an error. -/
def operation {α : Type} (l : Link) (socket : Socket) (what : α) : Operation α where
  what := what
  conn := l.attempt
  state := if socket.isOpen then .live else .aborted

/-- `async_read(*socket_, ..)`. -/
def asyncRead (l : Link) (what : Receive) : Option Link := do
  let socket ← l.socket
  return { l with reads := l.reads ++ [l.operation socket what] }

/-- `async_write(*socket_, ..)`. -/
def asyncWrite (l : Link) (what : Outgoing) : Option Link := do
  let socket ← l.socket
  return { l with writes := l.writes ++ [l.operation socket what] }

/-- `do_connect()`; `async_connect` opens the socket at once. -/
def doConnect (l : Link) : Link :=
  if l.clietnStatus = .conn then l
  else { l with
    socket := some { isOpen := true, connected := false }
    attempt := l.attempt + 1
    clietnStatus := .conn
    connects := l.connects ++ [{ what := (), conn := l.attempt + 1, state := .live }] }

/-- `is_open()`: a closed socket is connected again. -/
def isOpen (l : Link) : Option (Bool × Link) := do
  let socket ← l.socket
  return (socket.isOpen, if socket.isOpen = false then l.doConnect else l)

/-- Closing or deleting the socket ends everything in progress on it. -/
def abortAll (l : Link) : Link :=
  { l with
    connects := l.connects.map Operation.abort
    reads := l.reads.map Operation.abort
    writes := l.writes.map Operation.abort }

/-- `reset_socket()`. -/
def resetSocket (l : Link) : Link :=
  { l.abortAll with socket := some { isOpen := false, connected := false } }

/-- `do_close()`; `shutdown` throws on a closed socket and where it fails. -/
def doClose (l : Link) : Option Link :=
  if l.clietnStatus = .connClose then some l
  else
    match l.socket with
    | none => some { l with clietnStatus := .connClose }
    | some socket =>
      if socket.isOpen ∧ socket.shuts then
        some { l.abortAll with
          socket := some { isOpen := false, connected := false }
          clietnStatus := .connClose }
      else none

/-- The peer or the network ends the connection of an open socket, or the system
changes what `shutdown` would answer on it. -/
def disturb (l : Link) (lost shuts : Bool) : Option Link := do
  let socket ← l.socket
  let disturbed := { socket with lost := lost, shuts := shuts }
  if socket.isOpen ∧ (socket.lost → lost) ∧ disturbed.Documented then
    return { l with socket := some disturbed }
  else none

/-- The connect of the socket succeeds. -/
def establish (l : Link) : Option Socket :=
  l.socket.map fun socket => { socket with connected := true, shuts := true }

/-- The members a new `client_loop` starts from, before its constructor connects. -/
def init : Link where
  socket := some { isOpen := false, connected := false }
  attempt := 0
  clietnStatus := .unknown
  connects := []
  reads := []
  writes := []

/-- The socket exists and is open. -/
def opened (l : Link) : Bool := l.socket.any (·.isOpen)

/-- The socket exists and its connect has succeeded. -/
def connected (l : Link) : Bool := l.socket.any (·.connected)

/-- The socket exists and its connection is lost. -/
def lost (l : Link) : Bool := l.socket.any (·.lost)

/-- The socket exists and `shutdown` would succeed on it. -/
def shuts (l : Link) : Bool := l.socket.any (·.shuts)

variable {l next : Link}

/-- A started read is outstanding exactly when the socket is open. -/
theorem asyncRead_eq_some {what : Receive} (started : l.asyncRead what = some next) :
    ∃ op : Operation Receive, op.what = what ∧ op.conn = l.attempt ∧
      op.on l.attempt = l.opened ∧ next = { l with reads := l.reads ++ [op] } := by
  simp only [asyncRead, Option.bind_eq_bind, Option.bind_eq_some_iff, Option.pure_def] at started
  obtain ⟨socket, found, same⟩ := started
  cases same
  refine ⟨l.operation socket what, rfl, rfl, ?_, rfl⟩
  cases state : socket.isOpen <;> simp [operation, Operation.on, opened, found, state]

/-- On an open socket a read is in progress at once. -/
theorem asyncRead_of_opened (opened : l.opened = true) (what : Receive) :
    l.asyncRead what = some { l with
      reads := l.reads ++ [{ what := what, conn := l.attempt, state := .live }] } := by
  cases found : l.socket with
  | none => simp [Link.opened, found] at opened
  | some socket =>
    have up : socket.isOpen = true := by simpa [Link.opened, found] using opened
    simp [asyncRead, operation, found, up]

theorem asyncRead_of_closed (closed : l.opened = false) (present : l.socket.isSome = true)
    (what : Receive) : l.asyncRead what = some { l with
      reads := l.reads ++ [{ what := what, conn := l.attempt, state := .aborted }] } := by
  cases found : l.socket with
  | none => simp [found] at present
  | some socket =>
    have down : socket.isOpen = false := by simpa [Link.opened, found] using closed
    simp [asyncRead, operation, found, down]

theorem isOpen_of_opened (opened : l.opened = true) : l.isOpen = some (true, l) := by
  cases found : l.socket with
  | none => simp [Link.opened, found] at opened
  | some socket =>
    have up : socket.isOpen = true := by simpa [Link.opened, found] using opened
    simp [isOpen, found, up]

/-- On a closed one the answer is no, and a connect is started. -/
theorem isOpen_of_closed (closed : l.opened = false) (present : l.socket.isSome = true) :
    l.isOpen = some (false, l.doConnect) := by
  cases found : l.socket with
  | none => simp [found] at present
  | some socket =>
    have down : socket.isOpen = false := by simpa [Link.opened, found] using closed
    simp [isOpen, found, down]

theorem asyncWrite_eq_some {what : Outgoing} (started : l.asyncWrite what = some next) :
    ∃ op : Operation Outgoing, op.what = what ∧ op.conn = l.attempt ∧
      op.on l.attempt = l.opened ∧ next = { l with writes := l.writes ++ [op] } := by
  simp only [asyncWrite, Option.bind_eq_bind, Option.bind_eq_some_iff, Option.pure_def] at started
  obtain ⟨socket, found, same⟩ := started
  cases same
  refine ⟨l.operation socket what, rfl, rfl, ?_, rfl⟩
  cases state : socket.isOpen <;> simp [operation, Operation.on, opened, found, state]

theorem isOpen_eq_some {answer : Bool} (asked : l.isOpen = some (answer, next)) :
    l.opened = answer ∧ (answer = true ∧ next = l ∨ answer = false ∧ next = l.doConnect) := by
  simp only [isOpen, Option.bind_eq_bind, Option.bind_eq_some_iff, Option.pure_def] at asked
  obtain ⟨socket, found, same⟩ := asked
  cases same
  cases state : socket.isOpen <;> simp [opened, found, state]

/-- A connect is started unless one is in progress. -/
theorem doConnect_cases (l : Link) :
    (l.clietnStatus = .conn ∧ l.doConnect = l) ∨
    (l.clietnStatus ≠ .conn ∧ l.doConnect = { l with
      socket := some { isOpen := true, connected := false }
      attempt := l.attempt + 1
      clietnStatus := .conn
      connects := l.connects ++ [{ what := (), conn := l.attempt + 1, state := .live }] }) := by
  unfold doConnect
  by_cases connecting : l.clietnStatus = .conn
  · simp [connecting]
  · simp [connecting]

theorem doConnect_status (l : Link) : l.doConnect.clietnStatus = .conn := by
  rcases l.doConnect_cases with ⟨status, same⟩ | ⟨_, same⟩
  · rw [same, status]
  · rw [same]

private theorem doConnect_present (present : l.socket.isSome = true) :
    l.doConnect.socket.isSome = true := by
  rcases l.doConnect_cases with ⟨_, same⟩ | ⟨_, same⟩
  · rw [same]
    exact present
  · rw [same]
    rfl

/-- A connect that is started opens the socket for the next attempt. -/
theorem doConnect_attempt (idle : l.clietnStatus ≠ .conn) :
    l.doConnect.attempt = l.attempt + 1 := by
  simp [doConnect, idle]

theorem doConnect_reads (l : Link) : l.doConnect.reads = l.reads := by
  unfold doConnect
  split <;> rfl

theorem doConnect_writes (l : Link) : l.doConnect.writes = l.writes := by
  unfold doConnect
  split <;> rfl

/-- What `do_close` did, if it did not throw: nothing, or the socket was closed. -/
theorem doClose_eq_some (closed : l.doClose = some next) :
    (l.clietnStatus = .connClose ∧ next = l) ∨
    (l.clietnStatus ≠ .connClose ∧ l.socket = none ∧ next = { l with clietnStatus := .connClose }) ∨
    (l.clietnStatus ≠ .connClose ∧ l.opened = true ∧ next = { l.abortAll with
      socket := some { isOpen := false, connected := false }
      clietnStatus := .connClose }) := by
  unfold doClose at closed
  by_cases already : l.clietnStatus = .connClose
  · simp only [already, if_true] at closed
    exact .inl ⟨already, (Option.some.inj closed).symm⟩
  · simp only [already, if_false] at closed
    cases found : l.socket with
    | none =>
      simp only [found] at closed
      exact .inr (.inl ⟨already, rfl, (Option.some.inj closed).symm⟩)
    | some socket =>
      simp only [found] at closed
      split at closed
      · rename_i up
        exact .inr (.inr ⟨already, by simp [opened, found, up.1], (Option.some.inj closed).symm⟩)
      · cases closed

theorem doClose_status (closed : l.doClose = some next) :
    next.clietnStatus = .connClose := by
  rcases doClose_eq_some closed with ⟨status, rfl⟩ | ⟨_, _, rfl⟩ | ⟨_, _, rfl⟩
  · exact status
  · rfl
  · rfl

/-- Closing ends the outstanding operations or leaves them alone. -/
theorem doClose_outstanding (closed : l.doClose = some next) :
    (next.connects = l.connects ∧ next.reads = l.reads ∧ next.writes = l.writes) ∨
    (next.connects = l.connects.map Operation.abort ∧ next.reads = l.reads.map Operation.abort ∧
      next.writes = l.writes.map Operation.abort) := by
  rcases doClose_eq_some closed with ⟨_, rfl⟩ | ⟨_, _, rfl⟩ | ⟨_, _, rfl⟩
  · exact .inl ⟨rfl, rfl, rfl⟩
  · exact .inl ⟨rfl, rfl, rfl⟩
  · exact .inr ⟨rfl, rfl, rfl⟩

theorem doClose_present (present : l.socket.isSome = true) (closed : l.doClose = some next) :
    next.socket.isSome = true := by
  rcases doClose_eq_some closed with ⟨_, rfl⟩ | ⟨_, _, rfl⟩ | ⟨_, _, rfl⟩
  · exact present
  · exact present
  · rfl

theorem doClose_attempt (closed : l.doClose = some next) : next.attempt = l.attempt := by
  rcases doClose_eq_some closed with ⟨_, rfl⟩ | ⟨_, _, rfl⟩ | ⟨_, _, rfl⟩ <;> rfl

/-- Closing ends reads and starts none. -/
theorem doClose_reads (closed : l.doClose = some next) :
    ∀ op ∈ next.reads, ∃ old ∈ l.reads, old.what = op.what := by
  intro op member
  rcases doClose_eq_some closed with ⟨_, rfl⟩ | ⟨_, _, rfl⟩ | ⟨_, _, rfl⟩
  · exact ⟨op, member, rfl⟩
  · exact ⟨op, member, rfl⟩
  · obtain ⟨old, known, rfl⟩ := List.mem_map.mp member
    exact ⟨old, known, old.what_abort.symm⟩

theorem doClose_writes (closed : l.doClose = some next) :
    ∀ op ∈ next.writes, ∃ old ∈ l.writes, old.what = op.what ∧ old.conn = op.conn := by
  intro op member
  rcases doClose_eq_some closed with ⟨_, rfl⟩ | ⟨_, _, rfl⟩ | ⟨_, _, rfl⟩
  · exact ⟨op, member, rfl, rfl⟩
  · exact ⟨op, member, rfl, rfl⟩
  · obtain ⟨old, known, rfl⟩ := List.mem_map.mp member
    exact ⟨old, known, old.what_abort.symm, old.conn_abort.symm⟩

/-! ### The connection -/

/-- The link without its reads and writes. -/
def connection (l : Link) : Link := { l with reads := [], writes := [] }

variable {other : Link}

/-- Reads and writes apart, the same link. -/
theorem eq_of_connection (same : l.connection = other.connection) :
    other = { l with reads := other.reads, writes := other.writes } := by
  obtain ⟨socket, attempt, status, connects, reads, writes⟩ := l
  obtain ⟨socket', attempt', status', connects', reads', writes'⟩ := other
  simp only [connection, mk.injEq, and_true] at same
  obtain ⟨rfl, rfl, rfl, rfl⟩ := same
  rfl

private theorem socket_of_connection (same : l.connection = other.connection) :
    l.socket = other.socket :=
  (congrArg Link.socket same :)

private theorem attempt_of_connection (same : l.connection = other.connection) :
    l.attempt = other.attempt :=
  (congrArg Link.attempt same :)

/-- What is done to the connection depends on the connection alone. -/
theorem doConnect_connection (same : l.connection = other.connection) :
    l.doConnect.connection = other.doConnect.connection := by
  rw [eq_of_connection same]
  unfold doConnect
  split
  · rfl
  · rfl

theorem doClose_connection (same : l.connection = other.connection)
    (closing : l.doClose = some next) :
    ∃ after, other.doClose = some after ∧ next.connection = after.connection := by
  rw [eq_of_connection same]
  unfold doClose at closing ⊢
  split at closing
  · rename_i already
    cases closing
    exact ⟨_, if_pos already, rfl⟩
  · rename_i going
    simp only [if_neg going]
    cases found : l.socket with
    | none =>
      simp only [found] at closing
      cases closing
      exact ⟨_, rfl, rfl⟩
    | some socket =>
      simp only [found] at closing
      split at closing
      · rename_i up
        cases closing
        exact ⟨_, if_pos up, rfl⟩
      · cases closing

/-- A read that is started leaves the connection alone. -/
theorem asyncRead_connection {what : Receive} (reading : l.asyncRead what = some next) :
    next.connection = l.connection := by
  obtain ⟨_, _, _, _, rfl⟩ := asyncRead_eq_some reading
  rfl

theorem asyncRead_of_present (present : l.socket.isSome = true) (what : Receive) :
    ∃ next, l.asyncRead what = some next ∧ next.connection = l.connection := by
  cases opened : l.opened with
  | true =>
    have reading := asyncRead_of_opened opened what
    exact ⟨_, reading, asyncRead_connection reading⟩
  | false =>
    have reading := asyncRead_of_closed opened present what
    exact ⟨_, reading, asyncRead_connection reading⟩

private theorem asyncWrite_connection {what : Outgoing} (writing : l.asyncWrite what = some next) :
    next.connection = l.connection := by
  obtain ⟨_, _, _, _, rfl⟩ := asyncWrite_eq_some writing
  rfl

/-- What the peer, the network and the system change about an open socket. -/
structure Disturbs (socket after : Socket) : Prop where
  up : socket.isOpen = true
  isOpen : after.isOpen = true
  connected : after.connected = socket.connected
  lost : socket.lost = true → after.lost = true
  documented : after.Documented

theorem disturb_eq_some {lost shuts : Bool} (disturbed : l.disturb lost shuts = some next) :
    ∃ socket after, l.socket = some socket ∧ Disturbs socket after ∧
      next = { l with socket := some after } := by
  simp only [disturb, Option.bind_eq_bind, Option.bind_eq_some_iff, Option.pure_def] at disturbed
  obtain ⟨socket, found, taken⟩ := disturbed
  split at taken
  · rename_i allowed
    obtain ⟨up, kept, documented⟩ := allowed
    exact ⟨socket, { socket with lost := lost, shuts := shuts }, found,
      ⟨up, up, rfl, kept, documented⟩, (Option.some.inj taken).symm⟩
  · cases taken

/-- What a step of a client can do to the connection. -/
inductive Moves (l next : Link) : Prop where
  | stays (same : next.connection = l.connection)
  | reopens (closed : l.opened = false) (same : next.connection = l.doConnect.connection)
  | succeeds (index : Nat) (op : Operation Unit) (start : l.connects[index]? = some op)
      (live : op.state = .live)
      (unlost : l.lost = false)
      (same : next.connection = connection { l with
        socket := l.establish
        connects := l.connects.set index { op with state := .done } })
  | connectOk (index : Nat) (op : Operation Unit) (start : l.connects[index]? = some op)
      (done : op.state = .done)
      (same : next.connection = connection { l with
        connects := l.connects.eraseIdx index, clietnStatus := .connOk })
  | connectFailed (index : Nat) (op : Operation Unit) (start : l.connects[index]? = some op)
      (failed : op.state ≠ .done)
      (same : next.connection = connection (resetSocket { l with
        connects := l.connects.eraseIdx index, clietnStatus := .error }))
  | closes (link : Link) (closing : l.doClose = some link)
      (same : next.connection = link.connection)
  | disturbed (socket after : Socket) (found : l.socket = some socket)
      (upset : Disturbs socket after)
      (same : next.connection = connection { l with socket := some after })

/-- A handler may end its own operation before it closes the socket. -/
theorem Moves.ofClose (closing : l.doClose = some next) (same : l.connection = other.connection) :
    Moves other next := by
  obtain ⟨after, closed, equal⟩ := doClose_connection same closing
  exact .closes after closed equal

/-- Or before it starts to read or to write. -/
theorem Moves.ofRead {what : Receive} (reading : l.asyncRead what = some next)
    (same : l.connection = other.connection) : Moves other next :=
  .stays ((asyncRead_connection reading).trans same)

theorem Moves.ofWrite {what : Outgoing} (writing : l.asyncWrite what = some next)
    (same : l.connection = other.connection) : Moves other next :=
  .stays ((asyncWrite_connection writing).trans same)

/-- Connection attempts are counted upwards. -/
theorem Moves.attempt_le (moves : Moves l next) : l.attempt ≤ next.attempt := by
  cases moves with
  | stays same => exact Nat.le_of_eq (attempt_of_connection same).symm
  | reopens closed same =>
    rw [attempt_of_connection same]
    rcases l.doConnect_cases with ⟨_, stays⟩ | ⟨_, opens⟩
    · rw [stays]
    · rw [opens]
      exact Nat.le_succ _
  | succeeds index op start live unlost same => exact Nat.le_of_eq (attempt_of_connection same).symm
  | connectOk index op start done same => exact Nat.le_of_eq (attempt_of_connection same).symm
  | connectFailed index op start failed same =>
    exact Nat.le_of_eq (attempt_of_connection same).symm
  | closes link closing same => rw [attempt_of_connection same, doClose_attempt closing]
  | disturbed socket after found upset same => exact Nat.le_of_eq (attempt_of_connection same).symm

/-- The socket is replaced and closed, never deleted. -/
theorem Moves.present (moves : Moves l next) (present : l.socket.isSome = true) :
    next.socket.isSome = true := by
  cases moves with
  | stays same => rwa [socket_of_connection same]
  | reopens closed same =>
    rw [socket_of_connection same]
    exact doConnect_present present
  | succeeds index op start live unlost same =>
    rw [socket_of_connection same]
    simpa [establish] using present
  | connectOk index op start done same => rwa [socket_of_connection same]
  | connectFailed index op start failed same =>
    rw [socket_of_connection same]
    rfl
  | closes link closing same =>
    rw [socket_of_connection same]
    exact doClose_present present closing
  | disturbed socket after found upset same =>
    rw [socket_of_connection same]
    rfl

end Link

end RpcLoop
