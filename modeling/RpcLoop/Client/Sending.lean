import RpcLoop.Client.Transition

/-! Which steps of a client hand a message to `async_write`, and what becomes of
the writes already outstanding. -/

namespace RpcLoop

open Foundation Asio Shared

/-- The writes outstanding on the current connection. -/
def Link.writing (l : Link) : Nat := Operation.outstanding l.attempt l.writes

namespace Link

variable {l next : Link}

/-- The writes of a link belong to its attempts, and there are at most as many
outstanding as before. -/
structure WritesShrink (l next : Link) : Prop where
  early : Operation.Early next.attempt next.writes
  fewer : next.writing ≤ l.writing

theorem WritesShrink.refl (early : Operation.Early l.attempt l.writes) : WritesShrink l l where
  early := early
  fewer := Nat.le_refl _

theorem WritesShrink.trans {middle : Link} (first : WritesShrink l middle)
    (second : WritesShrink middle next) : WritesShrink l next where
  early := second.early
  fewer := Nat.le_trans second.fewer first.fewer

theorem WritesShrink.same (attempt : next.attempt = l.attempt) (writes : next.writes = l.writes)
    (early : Operation.Early l.attempt l.writes) : WritesShrink l next where
  early := by
    rw [attempt, writes]
    exact early
  fewer := by
    rw [writing, writing, attempt, writes]

theorem WritesShrink.doConnect (early : Operation.Early l.attempt l.writes) :
    WritesShrink l l.doConnect := by
  rcases doConnect_cases l with ⟨_, same⟩ | ⟨_, same⟩
  · rw [same]
    exact .refl early
  · rw [same]
    refine ⟨early.later, ?_⟩
    simp only [writing]
    rw [early.next]
    exact Nat.zero_le _

theorem WritesShrink.resetSocket (early : Operation.Early l.attempt l.writes) :
    WritesShrink l l.resetSocket where
  early := early.abort
  fewer := Operation.outstanding_abort_le

theorem WritesShrink.doClose (early : Operation.Early l.attempt l.writes)
    (closed : l.doClose = some next) : WritesShrink l next := by
  rcases doClose_eq_some closed with ⟨_, rfl⟩ | ⟨_, _, rfl⟩ | ⟨_, _, rfl⟩
  · exact .refl early
  · exact ⟨early, Nat.le_refl _⟩
  · exact ⟨early.abort, Operation.outstanding_abort_le⟩

theorem WritesShrink.endWrite (early : Operation.Early l.attempt l.writes) (index : Nat) :
    WritesShrink l { l with writes := l.writes.eraseIdx index } where
  early := early.eraseIdx index
  fewer := Operation.outstanding_eraseIdx_le index

end Link

namespace ClientLoop

/-- The message `do_write()` would pop and send. -/
def nextQueued (s : ClientLoop) : Option Outgoing :=
  if s.link.clietnStatus = .connOk then s.writeMsgQueue.items.head? else none

/-- The message that an event's handler hands to `async_write`. -/
def sends (s : ClientLoop) : Event → Option Outgoing
  | .runPosted index =>
    match s.posted[index]? with
    | some .doWrite => s.nextQueued
    | some (.doWriteMsg m) => if s.link.clietnStatus = .connOk then some m else none
    | _ => none
  | .handleWrite _ false => if s.link.opened ∧ s.csq = .on then s.nextQueued else none
  | _ => none

/-- The writes left when the handler of an event starts its own. -/
def otherWrites (s : ClientLoop) : Event → List (Operation Outgoing)
  | .handleWrite index _ => s.link.writes.eraseIdx index
  | _ => s.link.writes

variable {layout : IntLayout} {s next : ClientLoop} {event : Event}

private theorem endRead_writes (early : Operation.Early s.link.attempt s.link.writes)
    (index : Nat) :
    Link.WritesShrink s.link (s.endRead index) :=
  .same rfl rfl early

private theorem connectFailed_writes (early : Operation.Early s.link.attempt s.link.writes)
    (index : Nat) :
    Link.WritesShrink s.link { s.endConnect index with clietnStatus := .error } :=
  .same rfl rfl early

theorem nextQueued_eq_some {m : Outgoing} {queue : SafeQueue Outgoing}
    (status : s.link.clietnStatus = .connOk) (popped : s.writeMsgQueue.pop = some (m, queue)) :
    s.nextQueued = some m := by
  simp [nextQueued, status, (SafeQueue.pop_eq_some popped).1]

theorem nextQueued_eq_none
    (nothing : s.link.clietnStatus = .connOk → s.writeMsgQueue.items = []) :
    s.nextQueued = none := by
  unfold nextQueued
  split
  · rename_i status
    rw [nothing status, List.head?_nil]
  · rfl

theorem sends_posted {index : Nat} (queued : s.posted[index]? = some .doWrite) :
    sends s (.runPosted index) = s.nextQueued := by
  simp only [sends, queued]

theorem sends_postedMsg {index : Nat} {m : Outgoing}
    (queued : s.posted[index]? = some (.doWriteMsg m)) (status : s.link.clietnStatus = .connOk) :
    sends s (.runPosted index) = some m := by
  simp only [sends, queued, status, if_true]

theorem sends_postedClose {index : Nat} (queued : s.posted[index]? = some .doClose) :
    sends s (.runPosted index) = none := by
  simp only [sends, queued]

/-- A posted handler that finds the client down, or the queue empty. -/
theorem sends_postedQuiet {index : Nat} {handler : Posted}
    (queued : s.posted[index]? = some handler)
    (nothing : s.link.clietnStatus = .connOk → handler = .doWrite ∧ s.writeMsgQueue.items = []) :
    sends s (.runPosted index) = none := by
  cases handler with
  | doWrite => rw [sends_posted queued, nextQueued_eq_none fun status => (nothing status).2]
  | doWriteMsg m =>
    have down : s.link.clietnStatus ≠ .connOk := by
      intro status
      cases (nothing status).1
    simp only [sends, queued, down, if_false]
  | doClose => exact sends_postedClose queued

theorem sends_written (index : Nat) (opened : s.link.opened = true) (mode : s.csq = .on) :
    sends s (.handleWrite index false) = s.nextQueued := by
  simp only [sends, opened, mode, and_self, if_true]

/-- A completed write with no message behind it. -/
theorem sends_writeOk (index : Nat)
    (nothing : s.csq = .on → s.link.clietnStatus = .connOk → s.writeMsgQueue.items = []) :
    sends s (.handleWrite index false) = none := by
  simp only [sends]
  split
  · rename_i both
    exact nextQueued_eq_none (nothing both.2)
  · rfl

theorem sends_writeClosed (index : Nat) (error : Bool) (closed : s.link.opened = false) :
    sends s (.handleWrite index error) = none := by
  cases error with
  | true => rfl
  | false => simp only [sends, closed, Bool.false_eq_true, false_and, if_false]

/-- A message that is sent waits in the queue or in a posted handler. -/
theorem sends_source {m : Outgoing} (sending : sends s event = some m) :
    m ∈ s.writeMsgQueue.items ∨ .doWriteMsg m ∈ s.posted := by
  have queued : ∀ {m}, s.nextQueued = some m → m ∈ s.writeMsgQueue.items := by
    intro m next
    unfold nextQueued at next
    split at next
    · exact List.mem_of_mem_head? next
    · cases next
  unfold sends at sending
  split at sending
  · rename_i index
    split at sending
    · exact .inl (queued sending)
    · rename_i other found
      split at sending
      · cases sending
        exact .inr (List.mem_of_getElem? found)
      · cases sending
    · cases sending
  · split at sending
    · exact .inl (queued sending)
    · cases sending
  · cases sending

/-- A step either hands nothing to `async_write` and starts no write, or it
starts exactly one write beside those that are left. -/
theorem sends_cases (transition : Transition layout s event next)
    (early : Operation.Early s.link.attempt s.link.writes) :
    (sends s event = none ∧ next.handed = s.handed ∧ Link.WritesShrink s.link next.link) ∨
    ∃ m op, sends s event = some m ∧ next.handed = s.handed ++ [m] ∧ op.what = m ∧
      op.conn = s.link.attempt ∧ op.on s.link.attempt = s.link.opened ∧
      next.link = { s.link with writes := otherWrites s event ++ [op] } := by
  cases transition with
  | writeNext index op m queue link start done opened mode status popped writing =>
    obtain ⟨new, what, conn, on, same⟩ := Link.asyncWrite_eq_some writing
    right
    refine ⟨m, new, ?_, rfl, what, conn, on, same⟩
    rw [sends_written index opened mode, nextQueued_eq_some status popped]
  | postedNext index m queue link queued status popped writing =>
    obtain ⟨new, what, conn, on, same⟩ := Link.asyncWrite_eq_some writing
    right
    refine ⟨m, new, ?_, rfl, what, conn, on, same⟩
    rw [sends_posted queued, nextQueued_eq_some status popped]
  | postedMsg index m link queued status writing =>
    obtain ⟨new, what, conn, on, same⟩ := Link.asyncWrite_eq_some writing
    exact .inr ⟨m, new, sends_postedMsg queued status, rfl, what, conn, on, same⟩
  | writeOk index op start done opened nothing =>
    exact .inl ⟨sends_writeOk index nothing, rfl, .endWrite early index⟩
  | writeClosed index error op start delivers closed =>
    left
    exact ⟨sends_writeClosed index error closed, rfl,
      (Link.WritesShrink.endWrite early index).trans (.doConnect (early.eraseIdx index))⟩
  | writeFailed index op link start failed opened closing =>
    left
    exact ⟨rfl, rfl, (Link.WritesShrink.endWrite early index).trans
      (.doClose (early.eraseIdx index) closing)⟩
  | sent index op start live up =>
    left
    have known := early.get start
    refine ⟨rfl, rfl, early.set known, ?_⟩
    exact Nat.le_of_eq (Operation.outstanding_set _ _ start (by
      rw [Operation.on, Operation.on, live]
      rfl))
  | postedQuiet index handler queued nothing kind =>
    exact .inl ⟨sends_postedQuiet queued nothing, rfl, .refl early⟩
  | postedClose index link queued closing =>
    exact .inl ⟨sends_postedClose queued, rfl, .doClose early closing⟩
  | connectOk index op link erased start done reading erases =>
    obtain ⟨new, _, _, _, rfl⟩ := Link.asyncRead_eq_some reading
    left
    rw [erases.rest]
    exact ⟨rfl, rfl, early, Nat.le_refl _⟩
  | connectFailed index op start failed =>
    left
    exact ⟨rfl, rfl, (connectFailed_writes early index).trans (.resetSocket early)⟩
  | readClosed index error op start delivers closed =>
    left
    exact ⟨rfl, rfl, (endRead_writes early index).trans (.doConnect early)⟩
  | headFailed index op t link start failed opened kind closing =>
    left
    exact ⟨rfl, rfl, (endRead_writes early index).trans (.doClose early closing)⟩
  | msgFailed index op p length link start failed opened kind closing =>
    left
    exact ⟨rfl, rfl, (endRead_writes early index).trans (.doClose early closing)⟩
  | headKnown index op head p known readMsg link start done opened kind present headed buffer
      reading =>
    obtain ⟨new, _, _, _, rfl⟩ := Link.asyncRead_eq_some reading
    exact .inl ⟨rfl, rfl, early, Nat.le_refl _⟩
  | headUnknown index op head readMsg link start done opened kind unknown buffer reading =>
    obtain ⟨new, _, _, _, rfl⟩ := Link.asyncRead_eq_some reading
    exact .inl ⟨rfl, rfl, early, Nat.le_refl _⟩
  | msgOk index op p length readMsg link start done opened kind body reading =>
    obtain ⟨new, _, _, _, rfl⟩ := Link.asyncRead_eq_some reading
    exact .inl ⟨rfl, rfl, early, Nat.le_refl _⟩
  | reopened closed => exact .inl ⟨rfl, rfl, .doConnect early⟩
  | erased error timer after moved erases =>
    left
    rw [erases.rest]
    exact ⟨rfl, rfl, .refl early⟩
  | _ => exact .inl ⟨rfl, rfl, early, Nat.le_refl _⟩

/-- Every write of a client was started on an attempt it has made. -/
theorem early_step (transition : Transition layout s event next)
    (early : Operation.Early s.link.attempt s.link.writes) :
    Operation.Early next.link.attempt next.link.writes := by
  rcases sends_cases transition early with ⟨_, _, shrink⟩ | ⟨m, op, _, _, _, conn, _, same⟩
  · exact shrink.early
  · rw [same]
    apply Operation.Early.append _ (Nat.le_of_eq conn)
    cases event with
    | handleWrite index error => exact early.eraseIdx index
    | _ => exact early

end ClientLoop

end RpcLoop
