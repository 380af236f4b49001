import RpcLoop.Client.Lifecycle

/-! Whether a connection that the user closed stays closed. `do_close` ends the
operations in progress, whose handlers begin with `is_open`, and `is_open`
connects a closed socket again. -/

namespace RpcLoop

open Foundation Asio Shared

/-- No handler is left that asks `is_open` or starts to read. -/
structure Link.Silent (l : Link) : Prop where
  reads : l.reads = []
  writes : l.writes = []
  connects : ∀ op ∈ l.connects, op.state ≠ .done

theorem Link.Silent.aborted {l : Link} (silent : l.Silent) (idle : l.connecting = 0) :
    ∀ op ∈ l.connects, op.state = .aborted := by
  intro op member
  have ended := Operation.state_ne_live idle member
  exact Operation.aborted_of_ended ended (silent.connects op member)

/-- `do_close` takes no handler away. -/
theorem Link.Silent.of_doClose {l next : Link} (silent : next.Silent)
    (closing : l.doClose = some next) : l.Silent := by
  rcases Link.doClose_outstanding closing with ⟨connects, reads, writes⟩ | ⟨connects, reads, writes⟩
  · exact ⟨reads ▸ silent.reads, writes ▸ silent.writes, connects ▸ silent.connects⟩
  · refine ⟨?_, ?_, ?_⟩
    · exact List.map_eq_nil_iff.mp (reads ▸ silent.reads)
    · exact List.map_eq_nil_iff.mp (writes ▸ silent.writes)
    · intro op member done
      apply silent.connects op.abort
      · rw [connects]
        exact List.mem_map_of_mem member
      · simp [Operation.abort, done]

namespace ClientLoop

/-- No connect was started since the given attempt. -/
def StaysClosed (attempt : Nat) (s : ClientLoop) : Prop := s.link.attempt = attempt

instance (attempt : Nat) (s : ClientLoop) : Decidable (StaysClosed attempt s) :=
  inferInstanceAs (Decidable (_ = _))

/-- What the handlers that remain after such a close keep. -/
structure ClosedFor (attempt : Nat) (s : ClientLoop) : Prop where
  attempt : s.link.attempt = attempt
  reads : s.link.reads = []
  writes : s.link.writes = []
  connects : ∀ op ∈ s.link.connects, op.state = .aborted
  status : s.link.clietnStatus = .connClose ∨ s.link.clietnStatus = .error

variable {layout : IntLayout} {s next after : ClientLoop} {event : Event} {attempt index : Nat}

theorem ClosedFor.down (closed : ClosedFor attempt s) : s.link.clietnStatus ≠ .connOk := by
  rcases closed.status with status | status
  · simp [status]
  · simp [status]

theorem ClosedFor.doClose {link : Link} (closed : ClosedFor attempt s)
    (closing : s.link.doClose = some link) (posted : List Posted) :
    ClosedFor attempt { s with link := link, posted := posted } := by
  have status := Link.doClose_status closing
  rcases Link.doClose_eq_some closing with ⟨_, rfl⟩ | ⟨_, _, rfl⟩ | ⟨_, _, rfl⟩
  · exact { closed with }
  · exact ⟨closed.attempt, closed.reads, closed.writes, closed.connects, .inl rfl⟩
  · refine ⟨closed.attempt, ?_, ?_, ?_, .inl rfl⟩
    · simp [Link.abortAll, closed.reads]
    · simp [Link.abortAll, closed.writes]
    · intro op member
      obtain ⟨old, known, rfl⟩ := List.mem_map.mp member
      simp [Operation.abort, closed.connects old known]

/-- Every step but a call of `is_open` leaves the socket closed. -/
theorem ClosedFor.step (closed : ClosedFor attempt s) (unasked : event ≠ .isOpen)
    (transition : Transition layout s event next) : ClosedFor attempt next := by
  have noRead : ∀ {index : Nat} {op : Operation Receive}, s.link.reads[index]? ≠ some op := by
    intro index op found
    simp [closed.reads] at found
  have noWrite : ∀ {index : Nat} {op : Operation Outgoing}, s.link.writes[index]? ≠ some op := by
    intro index op found
    simp [closed.writes] at found
  have ended : ∀ {index : Nat} {op : Operation Unit}, s.link.connects[index]? = some op →
      op.state = .aborted := fun found => closed.connects _ (List.mem_of_getElem? found)
  cases transition with
  | stayedOpen opened => exact absurd rfl unasked
  | reopened down => exact absurd rfl unasked
  | connected index op start live unlost =>
    rw [ended start] at live
    cases live
  | receivedHead index op t bytes start => exact absurd start noRead
  | receivedMsg index op p length bytes filled start => exact absurd start noRead
  | sent index op start => exact absurd start noWrite
  | connectOk index op link erased start done reading erases =>
    rw [ended start] at done
    cases done
  | connectFailed index op start failed =>
    refine ⟨closed.attempt, ?_, ?_, ?_, .inr rfl⟩
    · simp [Link.resetSocket, Link.abortAll, endConnect, closed.reads]
    · simp [Link.resetSocket, Link.abortAll, endConnect, closed.writes]
    · intro op member
      obtain ⟨old, known, rfl⟩ := List.mem_map.mp member
      simp [Operation.abort, closed.connects old (List.mem_of_mem_eraseIdx known)]
  | readClosed index error op start => exact absurd start noRead
  | headFailed index op t link start => exact absurd start noRead
  | headKnown index op head p known readMsg link start => exact absurd start noRead
  | headUnknown index op head readMsg link start => exact absurd start noRead
  | msgFailed index op p length link start => exact absurd start noRead
  | msgOk index op p length readMsg link start => exact absurd start noRead
  | writeClosed index error op start => exact absurd start noWrite
  | writeFailed index op link start => exact absurd start noWrite
  | writeOk index op start => exact absurd start noWrite
  | writeNext index op m queue link start => exact absurd start noWrite
  | postedNext index m queue link queued status => exact absurd status closed.down
  | postedMsg index m link queued status => exact absurd status closed.down
  | postedClose index link queued closing => exact closed.doClose closing _
  | erased error timer after moved erases =>
    rw [erases.rest]
    exact { closed with }
  | _ => exact { closed with }

/-- A client that was closed with no such handler left stays closed. -/
theorem closedFor_of_silent (sound : s.link.Sound) (silent : s.link.Silent) {link : Link}
    (closing : s.link.doClose = some link) (posted : List Posted) :
    ClosedFor s.link.attempt { s with link := link, posted := posted } := by
  have status := Link.doClose_status closing
  rcases Link.doClose_eq_some closing with ⟨already, rfl⟩ | ⟨_, gone, rfl⟩ | ⟨_, _, rfl⟩
  · have idle := sound.idle (sound.closed (.inl already))
    exact ⟨rfl, silent.reads, silent.writes, silent.aborted idle, .inl status⟩
  · have idle := sound.idle (Link.socket_eq_none gone).1
    exact ⟨rfl, silent.reads, silent.writes, silent.aborted idle, .inl rfl⟩
  · refine ⟨rfl, ?_, ?_, ?_, .inl rfl⟩
    · simp [Link.abortAll, silent.reads]
    · simp [Link.abortAll, silent.writes]
    · intro op member
      obtain ⟨old, known, rfl⟩ := List.mem_map.mp member
      rcases old.state_abort with ⟨_, done⟩ | aborted
      · exact absurd done (silent.connects old known)
      · exact aborted

/-- The schedules in which the user does not call `is_open` leave the socket closed. -/
def StaysClosedUnasked (layout : IntLayout) (s : ClientLoop) : Prop :=
  ∀ schedule, Event.isOpen ∉ schedule →
    (machine layout).Always (StaysClosed s.link.attempt) s schedule

theorem StaysClosedUnasked.same_attempt (stays : StaysClosedUnasked layout s) (event : Event)
    (unasked : event ≠ .isOpen) (taken : step layout s event = some next) :
    next.link.attempt = s.link.attempt := by
  have always := stays [event] (by simpa using unasked.symm)
  exact always.2 next taken

theorem StaysClosedUnasked.after_step (stays : StaysClosedUnasked layout s) (event : Event)
    (unasked : event ≠ .isOpen) (taken : step layout s event = some next) :
    StaysClosedUnasked layout next := by
  intro schedule free
  have always := stays (event :: schedule) (by simpa using ⟨unasked.symm, free⟩)
  rw [stays.same_attempt event unasked taken]
  exact always.2 next taken

theorem StaysClosedUnasked.reads (stays : StaysClosedUnasked layout s)
    (closed : s.link.opened = false) (present : s.link.socket.isSome = true)
    (idle : s.link.clietnStatus ≠ .conn) : s.link.reads = [] := by
  cases started : s.link.reads with
  | nil => rfl
  | cons op rest =>
    obtain ⟨error, delivers⟩ := op.exists_delivers
    have first : s.link.reads[0]? = some op := by simp [started]
    have taken := handleRead_of_closed layout first delivers closed present
    have same := stays.same_attempt (.handleRead 0 error) (by simp) taken
    have more : (s.endRead 0).doConnect.attempt = s.link.attempt + 1 :=
      Link.doConnect_attempt (l := s.endRead 0) idle
    rw [more] at same
    exact absurd same (Nat.succ_ne_self _)

theorem StaysClosedUnasked.writes (stays : StaysClosedUnasked layout s)
    (closed : s.link.opened = false) (present : s.link.socket.isSome = true)
    (idle : s.link.clietnStatus ≠ .conn) : s.link.writes = [] := by
  cases started : s.link.writes with
  | nil => rfl
  | cons op rest =>
    obtain ⟨error, delivers⟩ := op.exists_delivers
    have first : s.link.writes[0]? = some op := by simp [started]
    have taken := handleWrite_of_closed layout first delivers closed present
    have same := stays.same_attempt (.handleWrite 0 error) (by simp) taken
    have more : (s.endWrite 0).doConnect.attempt = s.link.attempt + 1 :=
      Link.doConnect_attempt (l := s.endWrite 0) idle
    rw [more] at same
    exact absurd same (Nat.succ_ne_self _)

theorem StaysClosedUnasked.connects (stays : StaysClosedUnasked layout s)
    (closed : s.link.opened = false) (present : s.link.socket.isSome = true) :
    ∀ op ∈ s.link.connects, op.state ≠ .done := by
  intro op member done
  obtain ⟨index, started⟩ := List.mem_iff_getElem?.mp member
  obtain ⟨middle, taken, link⟩ := handleConnect_of_closed layout started done closed present
  have later := stays.after_step (.handleConnect index false) (by simp) taken
  have none := later.reads (by rw [link]; exact closed) (by rw [link]; exact present)
    (by rw [link]; simp)
  rw [link] at none
  simp at none

/-- A close that the user asked for lasts until the next call of `is_open` exactly
when it left no handler behind that asks `is_open` or starts to read. -/
theorem staysClosed_iff_silent (layout : IntLayout) (csq : ClientSendQueue)
    (reached : (machine layout).Reaches (start csq) s) (asked : s.posted[index]? = some .doClose)
    (closes : (machine layout).step s (.runPosted index) = some after) :
    (∀ schedule, Event.isOpen ∉ schedule →
      (machine layout).Always (StaysClosed s.link.attempt) after schedule) ↔ s.link.Silent := by
  have sound := sound_reaches reached
  have present := present_reaches reached
  have taken : step layout s (.runPosted index) = some after := closes
  obtain ⟨link, closing, rfl⟩ := runPosted_doClose asked taken
  have attempt := Link.doClose_attempt closing
  constructor
  · intro stays
    have status := Link.doClose_status closing
    have closed := sound.doClose_opened closing
    have kept := Link.doClose_present present closing
    have unasked : StaysClosedUnasked layout
        { s with link := link, posted := s.posted.eraseIdx index } := by
      intro schedule free
      rw [show link.attempt = s.link.attempt from attempt]
      exact stays schedule free
    have reads := unasked.reads closed kept (by simp [status])
    have writes := unasked.writes closed kept (by simp [status])
    have connects := unasked.connects closed kept
    exact Link.Silent.of_doClose ⟨reads, writes, connects⟩ closing
  · intro silent schedule free
    have closed := closedFor_of_silent sound silent closing (s.posted.eraseIdx index)
    have unasked : ∀ event ∈ schedule, event ≠ .isOpen := fun event member same =>
      free (same ▸ member)
    refine Machine.always_of_guarded (ClosedFor s.link.attempt) ClosedFor.attempt ?_ closed
      (Machine.allSteps_of_labels unasked)
    intro before event next held taken unasked
    exact held.step unasked (transition_of_step taken)

/-- The connection is lost, and then the user closes the client. -/
def lostThenClosed : ClientLoop :=
  ((machine .littleEndian).run (start .on)
    [.connected 0, .handleConnect 0 false, .handleRead 0 true, .close]).get (by decide +kernel)

theorem lostThenClosed_staysClosed :
    (∀ schedule, Event.isOpen ∉ schedule →
      (machine .littleEndian).Always (StaysClosed lostThenClosed.link.attempt)
        { lostThenClosed with posted := [] } schedule) ↔ lostThenClosed.link.Silent :=
  have asked : lostThenClosed.posted[0]? = some .doClose := rfl
  staysClosed_iff_silent .littleEndian .on (.get _) asked rfl

/-- The user closes a connected client. -/
def terminated : ClientLoop :=
  ((machine .littleEndian).run (start .on) [.connected 0, .handleConnect 0 false, .close]).get
    (by decide +kernel)

/-- The read that the close ends connects the client again. -/
theorem terminated_reopens :
    ¬ ∀ s after index, (machine .littleEndian).Reaches (start .on) s →
      s.posted[index]? = some .doClose →
      (machine .littleEndian).step s (.runPosted index) = some after →
      ∀ schedule, Event.isOpen ∉ schedule →
        (machine .littleEndian).Always (StaysClosed s.link.attempt) after schedule := by
  intro claim
  have always := claim terminated
    (((machine .littleEndian).step terminated (.runPosted 0)).get (by decide +kernel)) 0
    (.get _) rfl (Option.some_get _).symm [.handleRead 0 true] (by simp)
  revert always
  decide +kernel

end ClientLoop

end RpcLoop
