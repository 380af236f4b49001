import RpcLoop.Client.Connecting
import RpcLoop.Client.Lifecycle

/-! The steps of a client as runs of its shared link: a call that no other call
interrupts does at once what the client's step does, so whatever the connection of
a client can come to, the shared link can come to as well. -/

namespace RpcLoop

open Foundation Asio Shared

namespace SharedLink

variable {s : SharedLink} {link : Link}

/-- No call is under way. -/
def Quiet (s : SharedLink) : Prop := s.calls = []

private theorem reaches_doConnect (quiet : s.Quiet) (closed : s.link.opened = false)
    (present : s.link.socket.isSome = true) :
    machine.Reaches s { s with link := s.link.doConnect } := by
  obtain ⟨⟨socket, attempt, status, connects, reads, writes⟩, calls, started⟩ := s
  cases quiet
  cases socket with
  | none => cases present
  | some socket =>
    have down : socket.isOpen = false := closed
    by_cases connecting : status = .conn
    · refine ⟨[.isOpen, .act 0, .act 0], ?_⟩
      simp [Machine.run, machine, step, act, goOn, return_, down, connecting, Link.doConnect]
    · refine ⟨[.isOpen, .act 0, .act 0, .act 0, .act 0], ?_⟩
      simp [Machine.run, machine, step, act, goOn, return_, down, connecting, Link.doConnect,
        Link.asyncConnect]

private theorem reaches_doClose (quiet : s.Quiet) (closing : s.link.doClose = some link) :
    machine.Reaches s { s with link := link } := by
  obtain ⟨⟨socket, attempt, status, connects, reads, writes⟩, calls, started⟩ := s
  cases quiet
  by_cases already : status = .connClose
  · simp only [Link.doClose, already, if_true] at closing
    cases closing
    refine ⟨[.doClose, .act 0], ?_⟩
    simp [Machine.run, machine, step, act, return_, already]
  · refine ⟨[.doClose, .act 0, .act 0, .act 0], ?_⟩
    simp only [Link.doClose, already, if_false] at closing
    cases socket with
    | none =>
      cases closing
      simp [Machine.run, machine, step, act, goOn, return_, already, Link.shutDown]
    | some socket =>
      simp only at closing
      split at closing
      · rename_i up
        cases closing
        simp [Machine.run, machine, step, act, goOn, return_, already, Link.shutDown, up,
          Link.abortAll]
      · cases closing

private theorem reaches_connectOk (quiet : s.Quiet) {index : Nat} {op : Operation Unit}
    (start : s.link.connects[index]? = some op) (done : op.state = .done)
    (reading : { s.link with
      connects := s.link.connects.eraseIdx index, clietnStatus := .connOk }.asyncRead (.head {}) =
        some link) :
    machine.Reaches s { s with link := link, started := op.conn :: s.started } := by
  obtain ⟨own, calls, started⟩ := s
  cases quiet
  have delivers : op.Delivers false := done
  refine ⟨[.handleConnect index false, .act 0], ?_⟩
  simp only at start reading
  simp [Machine.run, machine, step, handleConnect, act, return_, start, delivers, reading]

private theorem reaches_connectFailed (quiet : s.Quiet) {index : Nat} {op : Operation Unit}
    (start : s.link.connects[index]? = some op) (failed : op.state ≠ .done) :
    machine.Reaches s { s with link := Link.resetSocket { s.link with
      connects := s.link.connects.eraseIdx index, clietnStatus := .error } } := by
  obtain ⟨own, calls, started⟩ := s
  cases quiet
  have delivers : op.Delivers true := failed
  refine ⟨[.handleConnect index true, .act 0], ?_⟩
  simp only at start
  simp [Machine.run, machine, step, handleConnect, act, return_, start, delivers]

/-- The shared link stands where the connection of a client stands. -/
structure Follows (s : SharedLink) (l : Link) : Prop where
  quiet : s.Quiet
  same : s.link.connection = l.connection

variable {layout : IntLayout} {c next : ClientLoop} {event : ClientLoop.Event} {l : Link}

theorem Follows.doConnect (follows : Follows s l) (closed : l.opened = false)
    (present : l.socket.isSome = true) :
    ∃ after, machine.Reaches s after ∧ Follows after l.doConnect := by
  have own := Link.eq_of_connection follows.same
  rw [own] at closed present
  exact ⟨_, reaches_doConnect follows.quiet closed present, follows.quiet,
    Link.doConnect_connection follows.same⟩

theorem Follows.doClose (follows : Follows s l) (closing : l.doClose = some link) :
    ∃ after, machine.Reaches s after ∧ Follows after link := by
  obtain ⟨closed, called, same⟩ := Link.doClose_connection follows.same.symm closing
  exact ⟨_, reaches_doClose follows.quiet called, follows.quiet, same.symm⟩

/-- The reads and writes of the client do not matter. -/
theorem Follows.frame (follows : Follows s l) (same : link.connection = l.connection) :
    Follows s link :=
  ⟨follows.quiet, follows.same.trans same.symm⟩

theorem Follows.connected (follows : Follows s l) {index : Nat} {op : Operation Unit}
    (start : l.connects[index]? = some op) (live : op.state = .live) (unlost : l.lost = false) :
    ∃ after, machine.Reaches s after ∧ Follows after { l with
      socket := l.establish
      connects := l.connects.set index { op with state := .done } } := by
  rw [Link.eq_of_connection follows.same] at start unlost ⊢
  have unlost : s.link.lost = false := unlost
  simp only at start
  refine ⟨{ s with link := { s.link with
    socket := s.link.establish
    connects := s.link.connects.set index { op with state := .done } } },
    ⟨[.connected index], ?_⟩, follows.quiet, rfl⟩
  simp [Machine.run, machine, SharedLink.step, completeConnect, start, live, unlost]

theorem Follows.disturbed (follows : Follows s l) {socket after : Socket}
    (found : l.socket = some socket) (upset : Link.Disturbs socket after) :
    ∃ next, machine.Reaches s next ∧ Follows next { l with socket := some after } := by
  rw [Link.eq_of_connection follows.same] at found ⊢
  simp only at found
  obtain ⟨isOpen, connected, lost, shuts⟩ := after
  obtain ⟨up, rfl, rfl, kept, documented⟩ := upset
  have allowed : socket.isOpen = true ∧ (socket.lost = true → lost = true) ∧
      Socket.Documented { socket with lost := lost, shuts := shuts } :=
    ⟨up, kept, by rwa [up]⟩
  have turned : s.link.disturb lost shuts = some { s.link with
      socket := some { socket with lost := lost, shuts := shuts } } := by
    simp only [Link.disturb, found, Option.bind_eq_bind, Option.bind_some, Option.pure_def]
    exact if_pos allowed
  rw [up] at turned
  refine ⟨{ s with link := { s.link with
      socket := some { isOpen := true, connected := socket.connected, lost := lost, shuts := shuts }
    } }, ⟨[.disturbed lost shuts], ?_⟩, follows.quiet, rfl⟩
  simp [Machine.run, machine, SharedLink.step, turned]

theorem Follows.connectOk (follows : Follows s l) (present : l.socket.isSome = true) {index : Nat}
    {op : Operation Unit} (start : l.connects[index]? = some op) (done : op.state = .done) :
    ∃ after, machine.Reaches s after ∧ Follows after { l with
      connects := l.connects.eraseIdx index, clietnStatus := .connOk } := by
  rw [Link.eq_of_connection follows.same] at start present ⊢
  obtain ⟨own, reading, same⟩ := Link.asyncRead_of_present (l := { s.link with
    connects := s.link.connects.eraseIdx index, clietnStatus := .connOk }) present (.head {})
  exact ⟨_, reaches_connectOk follows.quiet start done reading, follows.quiet, same⟩

theorem Follows.connectFailed (follows : Follows s l) {index : Nat} {op : Operation Unit}
    (start : l.connects[index]? = some op) (failed : op.state ≠ .done) :
    ∃ after, machine.Reaches s after ∧ Follows after (Link.resetSocket { l with
      connects := l.connects.eraseIdx index, clietnStatus := .error }) := by
  rw [Link.eq_of_connection follows.same] at start ⊢
  exact ⟨_, reaches_connectFailed follows.quiet start failed, follows.quiet, rfl⟩

/-- Every step of a client is a run of its shared link. -/
theorem Follows.step (follows : Follows s l) (present : l.socket.isSome = true)
    (moves : l.Moves link) : ∃ after, machine.Reaches s after ∧ Follows after link := by
  have framed : ∀ {middle : Link}, link.connection = middle.connection →
      (∃ after, machine.Reaches s after ∧ Follows after middle) →
      ∃ after, machine.Reaches s after ∧ Follows after link := by
    rintro middle same ⟨after, run, later⟩
    exact ⟨after, run, later.frame same⟩
  cases moves with
  | stays same => exact framed same ⟨s, .refl s, follows⟩
  | reopens closed same => exact framed same (follows.doConnect closed present)
  | succeeds index op start live unlost same =>
    exact framed same (follows.connected start live unlost)
  | connectOk index op start done same => exact framed same (follows.connectOk present start done)
  | connectFailed index op start failed same =>
    exact framed same (follows.connectFailed start failed)
  | closes closed closing same => exact framed same (follows.doClose closing)
  | disturbed socket after found upset same => exact framed same (follows.disturbed found upset)

/-- Whatever a client's connection comes to, the shared link can come to. -/
theorem follows_reaches {csq : ClientSendQueue}
    (reached : (ClientLoop.machine layout).Reaches (.start csq) c) :
    ∃ s, machine.Reaches start s ∧ Follows s c.link := by
  have keeps : ∀ {before : ClientLoop} {event : ClientLoop.Event} {after : ClientLoop},
      (before.link.socket.isSome = true ∧ ∃ s, machine.Reaches start s ∧ Follows s before.link) →
      (ClientLoop.machine layout).step before event = some after →
      after.link.socket.isSome = true ∧ ∃ s, machine.Reaches start s ∧ Follows s after.link := by
    rintro before event after ⟨present, s, reached, follows⟩ taken
    have moves := ClientLoop.link_moves (ClientLoop.transition_of_step taken)
    obtain ⟨next, run, later⟩ := follows.step present moves
    exact ⟨moves.present present, next, reached.trans run, later⟩
  exact (reached.invariant keeps ⟨rfl, start, .refl _, rfl, rfl⟩).2

end SharedLink

end RpcLoop
