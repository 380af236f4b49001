import RpcLoop.Client.Destroy
import RpcLoop.Client.Reopening

/-! Whether the handlers survive `destroy`. The io thread is stopped only after
`destroy` has deleted the socket, and closing it is what makes them run. -/

namespace RpcLoop

open Foundation Asio Shared

/-- `do_close` comes behind its guard or finds no socket, or `shutdown` succeeds. -/
def Link.Closes (l : Link) : Prop :=
  l.clietnStatus = .connClose ∨ l.socket = none ∨ l.opened = true ∧ l.shuts = true

theorem Link.doClose_eq_none_iff {l : Link} : l.doClose = none ↔ ¬ l.Closes := by
  rw [Link.doClose_eq_none, Link.Closes, not_or, not_or]

/-- The io thread runs a handler, or the network or a timer gives it one. -/
def ClientLoop.Event.byService : ClientLoop.Event → Bool
  | .connected _ | .received .. | .sent _ | .handleConnect .. | .handleRead .. | .handleWrite .. |
    .runPosted _ | .expire _ | .timeout _ | .timeoutCancelled _ | .eraseExpire |
    .eraseTimer _ | .disturbed .. => true
  | _ => false

namespace DestroyedClient

/-- What goes on between the `do_close` of `destroy` and the end of the io thread. -/
def Event.winding : Event → Bool
  | .loop event => event.byService
  | .destroy => false
  | .deleteSocket => true

/-- No handler followed a null `socket_`. -/
def Followed (c : DestroyedClient) : Prop := c.crash ≠ some .nullSocket

instance (c : DestroyedClient) : Decidable (Followed c) := inferInstanceAs (Decidable (_ ≠ _))

variable {layout : IntLayout} {c next after : DestroyedClient} {attempt : Nat}

private theorem byService_ne_isOpen {event : ClientLoop.Event} (handler : event.byService = true) :
    event ≠ .isOpen := by
  rintro rfl
  cases handler

private theorem usesSocket_of_closedFor {s : ClientLoop} (closed : s.ClosedFor attempt)
    {event : ClientLoop.Event} (unasked : event ≠ .isOpen) : s.usesSocket event = false := by
  cases event with
  | isOpen => exact absurd rfl unasked
  | handleConnect index error =>
    cases started : s.link.connects[index]? with
    | none => simp [ClientLoop.usesSocket, started]
    | some op =>
      have ended := closed.connects op (List.mem_of_getElem? started)
      cases error with
      | true => simp [ClientLoop.usesSocket, started]
      | false => simp [ClientLoop.usesSocket, started, Operation.Delivers, ended]
  | handleRead index error => simp [ClientLoop.usesSocket, closed.reads]
  | handleWrite index error => simp [ClientLoop.usesSocket, closed.writes]
  | runPosted index =>
    have down := closed.down
    simp only [ClientLoop.usesSocket]
    split <;> simp [down]
  | _ => rfl

private theorem closedFor_deleteSocket {s : ClientLoop} (closed : s.ClosedFor attempt) :
    s.deleteSocket.ClosedFor attempt where
  attempt := closed.attempt
  reads := by simp [ClientLoop.deleteSocket, Link.abortAll, closed.reads]
  writes := by simp [ClientLoop.deleteSocket, Link.abortAll, closed.writes]
  connects op member := by
    obtain ⟨old, known, rfl⟩ := List.mem_map.mp member
    simp [Operation.abort, closed.connects old known]
  status := closed.status

private theorem closedFor_step {event : Event} (closed : c.loop.ClosedFor attempt)
    (winding : event.winding = true) (taken : step layout c event = some next) :
    next.loop.ClosedFor attempt ∧ Followed next := by
  obtain ⟨running, ⟨own, crash, rfl, crashes, rfl⟩ | ⟨own, loop, rfl, calm, transition, rfl⟩ |
    ⟨rfl, _⟩ | ⟨rfl, busy, rfl⟩⟩ := step_cases taken
  · refine ⟨closed, ?_⟩
    rintro null
    cases Option.some.inj null
    have uses := (ClientLoop.crash_eq_nullSocket.mp crashes).2
    rw [usesSocket_of_closedFor closed (byService_ne_isOpen winding)] at uses
    cases uses
  · exact ⟨closed.step (byService_ne_isOpen winding) transition, by simp [Followed, running]⟩
  · cases winding
  · exact ⟨closedFor_deleteSocket closed, by simp [Followed, running]⟩

private theorem crash_after_delete (event : ClientLoop.Event) (handler : event.byService = true)
    (running : c.crash = none) (busy : c.destroying = true)
    (uses : c.loop.deleteSocket.usesSocket event = true)
    (survives : ∀ schedule, (∀ event ∈ schedule, Event.winding event = true) →
      (machine layout).Always Followed c schedule) : False := by
  have crashes : c.loop.deleteSocket.crash event = some .nullSocket :=
    ClientLoop.crash_eq_nullSocket.mpr ⟨rfl, uses⟩
  have always := survives [.deleteSocket, .loop event] (by simp [Event.winding, handler])
  have last : (machine layout).run c [.deleteSocket, .loop event] = some { c with
      loop := c.loop.deleteSocket, destroying := false, crash := some .nullSocket } := by
    simp [Machine.run, machine, step, running, busy, loopStep, crashes]
  exact always.final last rfl

private theorem silent_of_followed (running : c.crash = none) (busy : c.destroying = true)
    (survives : ∀ schedule, (∀ event ∈ schedule, Event.winding event = true) →
      (machine layout).Always Followed c schedule) : c.loop.link.Silent where
  reads := by
    cases started : c.loop.link.reads with
    | nil => rfl
    | cons op rest =>
      obtain ⟨error, delivers⟩ := op.exists_delivers
      refine (crash_after_delete (.handleRead 0 error) rfl running busy ?_ survives).elim
      simpa [ClientLoop.usesSocket, ClientLoop.deleteSocket, Link.abortAll, started] using
        (op.delivers_abort error).mpr delivers
  writes := by
    cases started : c.loop.link.writes with
    | nil => rfl
    | cons op rest =>
      obtain ⟨error, delivers⟩ := op.exists_delivers
      refine (crash_after_delete (.handleWrite 0 error) rfl running busy ?_ survives).elim
      simpa [ClientLoop.usesSocket, ClientLoop.deleteSocket, Link.abortAll, started] using
        (op.delivers_abort error).mpr delivers
  connects op member done := by
    obtain ⟨index, started⟩ := List.mem_iff_getElem?.mp member
    refine crash_after_delete (.handleConnect index false) rfl running busy ?_ survives
    have delivers : op.Delivers false := done
    simpa [ClientLoop.usesSocket, ClientLoop.deleteSocket, Link.abortAll, started] using
      (op.delivers_abort false).mpr delivers

private theorem always_of_threw (crashed : c.crash = some .threw) (schedule : List Event) :
    (machine layout).Always Followed c schedule := by
  cases schedule with
  | nil => simp [Machine.Always, Followed, crashed]
  | cons event rest => simp [Machine.Always, machine, step, Followed, crashed]

/-- The client loses its connection and is destroyed. -/
def lostThenDestroyed : DestroyedClient :=
  ((machine .littleEndian).run (start .on) [.loop (.connected 0), .loop (.handleConnect 0 false),
    .loop (.handleRead 0 true)]).get (by decide +kernel)

/-- A connected client is destroyed before the handler of its aborted read runs. -/
def destroyedConnected : List Event :=
  [.loop (.connected 0), .loop (.handleConnect 0 false), .destroy, .deleteSocket,
    .loop (.handleRead 0 true)]

end DestroyedClient

end RpcLoop
