import RpcLoop.Client.Pointers
import RpcLoop.Client.Sending

/-! Whether handlers of an earlier connection touch a later one. Handlers carry
no connection identity; `is_open` reopens the socket while handlers of the old
connection are still queued, and these then take the new socket for their own. -/

namespace RpcLoop

open Foundation Asio Shared

namespace Link

/-- The reads outstanding on the current connection. -/
def reading (l : Link) : Nat := Operation.outstanding l.attempt l.reads

/-- The reading chains of the current connection: its connect, which starts one,
or the read that carries it on. -/
structure ReadBudget (l : Link) : Prop where
  connects : Operation.Early l.attempt l.connects
  reads : Operation.Early l.attempt l.reads
  single : Operation.outstanding l.attempt l.connects + l.reading ≤ 1

variable {l next : Link}

theorem ReadBudget.init : ReadBudget Link.init.doConnect where
  connects op member := by
    cases List.mem_singleton.mp member
    exact Nat.le_refl _
  reads op member := by cases member
  single := by decide

theorem ReadBudget.fewer (budget : ReadBudget l) (attempt : next.attempt = l.attempt)
    (connects : Operation.Early next.attempt next.connects)
    (reads : Operation.Early next.attempt next.reads)
    (lessConnects : Operation.outstanding l.attempt next.connects ≤
      Operation.outstanding l.attempt l.connects)
    (lessReads : Operation.outstanding l.attempt next.reads ≤
      Operation.outstanding l.attempt l.reads) : ReadBudget next where
  connects := connects
  reads := reads
  single := by
    have single := budget.single
    simp only [reading, attempt] at single ⊢
    omega

theorem ReadBudget.doConnect (budget : ReadBudget l) : ReadBudget l.doConnect := by
  rcases l.doConnect_cases with ⟨_, same⟩ | ⟨_, same⟩
  · rw [same]
    exact budget
  · rw [same]
    refine ⟨budget.connects.later.append (Nat.le_refl _), budget.reads.later, ?_⟩
    simp [reading, budget.connects.next, budget.reads.next, Operation.on]

theorem ReadBudget.abortAll (budget : ReadBudget l) (socket : Option Socket)
    (status : ClientStatusType) :
    ReadBudget { l.abortAll with socket := socket, clietnStatus := status } :=
  budget.fewer rfl budget.connects.abort budget.reads.abort Operation.outstanding_abort_le
    Operation.outstanding_abort_le

theorem ReadBudget.doClose (budget : ReadBudget l) (closing : l.doClose = some next) :
    ReadBudget next := by
  rcases doClose_eq_some closing with ⟨_, rfl⟩ | ⟨_, _, rfl⟩ | ⟨_, _, rfl⟩
  · exact budget
  · exact ⟨budget.connects, budget.reads, budget.single⟩
  · exact budget.abortAll _ _

/-- The handler of a read on the current connection may start the next one. -/
theorem ReadBudget.nextRead (budget : ReadBudget l) {index : Nat} {op : Operation Receive}
    {what : Receive} (start : l.reads[index]? = some op) (current : op.conn = l.attempt)
    (done : op.state = .done)
    (started : { l with reads := l.reads.eraseIdx index }.asyncRead what = some next) :
    ReadBudget next := by
  obtain ⟨new, _, conn, _, rfl⟩ := asyncRead_eq_some started
  refine ⟨budget.connects, (budget.reads.eraseIdx index).append (Nat.le_of_eq conn), ?_⟩
  have single := budget.single
  have count := Operation.outstanding_eraseIdx_done start current done
  simp only [reading] at single ⊢
  rw [Operation.outstanding_append, Operation.outstanding_singleton]
  split <;> omega

theorem ReadBudget.firstRead (budget : ReadBudget l) {index : Nat} {op : Operation Unit}
    {what : Receive} {status : ClientStatusType} (start : l.connects[index]? = some op)
    (current : op.conn = l.attempt) (done : op.state = .done)
    (started : { l with connects := l.connects.eraseIdx index, clietnStatus := status }.asyncRead
      what = some next) : ReadBudget next := by
  obtain ⟨new, _, conn, _, rfl⟩ := asyncRead_eq_some started
  refine ⟨budget.connects.eraseIdx index, budget.reads.append (Nat.le_of_eq conn), ?_⟩
  have single := budget.single
  have count := Operation.outstanding_eraseIdx_done start current done
  simp only [reading] at single ⊢
  rw [Operation.outstanding_append, Operation.outstanding_singleton]
  split <;> omega

theorem ReadBudget.endConnect (budget : ReadBudget l) (index : Nat) :
    ReadBudget { l with connects := l.connects.eraseIdx index } :=
  budget.fewer rfl (budget.connects.eraseIdx index) budget.reads
    (Operation.outstanding_eraseIdx_le index) (Nat.le_refl _)

theorem ReadBudget.endRead (budget : ReadBudget l) (index : Nat) :
    ReadBudget { l with reads := l.reads.eraseIdx index } :=
  budget.fewer rfl budget.connects (budget.reads.eraseIdx index) (Nat.le_refl _)
    (Operation.outstanding_eraseIdx_le index)

theorem ReadBudget.endWrite (budget : ReadBudget l) (writes : List (Operation Outgoing)) :
    ReadBudget { l with writes := writes } :=
  ⟨budget.connects, budget.reads, budget.single⟩

/-- An open socket is not marked as closed. -/
def Honest (l : Link) : Prop := l.opened = true → l.clietnStatus ≠ .connClose

theorem Honest.doConnect (l : Link) : Honest l.doConnect := by
  intro _
  rcases l.doConnect_cases with ⟨status, same⟩ | ⟨_, same⟩
  · rw [same, status]
    simp
  · rw [same]
    simp

/-- After `do_close` the socket is not open. -/
theorem Honest.closed (honest : Honest l) (closing : l.doClose = some next) :
    next.opened = false := by
  rcases doClose_eq_some closing with ⟨status, rfl⟩ | ⟨_, none, rfl⟩ | ⟨_, _, rfl⟩
  · cases opened : next.opened with
    | true => exact absurd status (honest opened)
    | false => rfl
  · simp [opened, none]
  · rfl

theorem Honest.doClose (honest : Honest l) (closing : l.doClose = some next) : Honest next := by
  intro opened
  rw [honest.closed closing] at opened
  cases opened

theorem Honest.of_connection (honest : Honest l) (same : next.connection = l.connection) :
    Honest next := by
  rw [eq_of_connection same.symm]
  exact honest

theorem Honest.step (honest : Honest l) (moves : l.Moves next) : Honest next := by
  cases moves with
  | stays same => exact honest.of_connection same
  | reopens closed same => exact (Honest.doConnect l).of_connection same
  | succeeds index op start live unlost same =>
    refine Honest.of_connection ?_ same
    intro opened
    apply honest
    simpa [Link.opened, establish, Option.any_map, Function.comp_def] using opened
  | connectOk index op start done same =>
    refine Honest.of_connection ?_ same
    intro _
    simp
  | connectFailed index op start failed same =>
    refine Honest.of_connection ?_ same
    intro _
    simp [resetSocket, abortAll]
  | closes link closing same => exact (honest.doClose closing).of_connection same
  | disturbed socket after found upset same =>
    refine Honest.of_connection ?_ same
    intro _
    apply honest
    rw [Link.opened, found, Option.any_some, upset.up]

end Link

namespace ClientLoop

/-- The attempt that the operation of a completion handler was started on. -/
def handledConn (s : ClientLoop) : Event → Option Nat
  | .handleConnect index _ => s.link.connects[index]?.map Operation.conn
  | .handleRead index _ => s.link.reads[index]?.map Operation.conn
  | .handleWrite index _ => s.link.writes[index]?.map Operation.conn
  | _ => none

/-- The handler belongs to a connection before the current attempt. -/
def Stale (s : ClientLoop) (event : Event) : Prop :=
  ∃ conn, handledConn s event = some conn ∧ conn < s.link.attempt

/-- The reads left when the handler of an event starts its own. -/
def otherReads (s : ClientLoop) : Event → List (Operation Receive)
  | .handleRead index _ => s.link.reads.eraseIdx index
  | _ => s.link.reads

/-- A handler of an earlier connection starts no read and no write, and neither
closes nor resets an open socket. -/
structure LeavesAlone (s : ClientLoop) (event : Event) (next : ClientLoop) : Prop where
  reads : Stale s event → next.link.reads.length ≤ (otherReads s event).length
  writes : Stale s event → next.link.writes.length ≤ (otherWrites s event).length
  socket : Stale s event → s.link.opened = true → next.link.socket = s.link.socket

/-- At most one read is outstanding on the socket. -/
def SingleReader (s : ClientLoop) : Prop := s.link.reading ≤ 1

/-- Handlers of an earlier connection run while the socket is closed, if at all;
a write's handler may also find nothing to send. -/
def StaleIdle (s : ClientLoop) (event : Event) (_ : ClientLoop) : Prop :=
  Stale s event →
    match event with
    | .handleConnect _ error => error = true ∧ s.link.opened = false
    | .handleRead _ _ => s.link.opened = false
    | .handleWrite _ error => s.link.opened = false ∨ error = false ∧ sends s event = none
    | _ => True

/-- What such runs keep. -/
structure OneChain (s : ClientLoop) : Prop where
  budget : s.link.ReadBudget
  honest : s.link.Honest
  writes : Operation.Early s.link.attempt s.link.writes

variable {layout : IntLayout} {s next : ClientLoop} {event : Event}

theorem OneChain.initial (csq : ClientSendQueue) : OneChain (start csq) where
  budget := .init
  honest := .doConnect _
  writes _ member := by cases member

theorem current_of_notStale (s : ClientLoop) (event : Event) {conn : Nat}
    (handled : handledConn s event = some conn)
    (known : conn ≤ s.link.attempt) (fresh : ¬ Stale s event) : conn = s.link.attempt := by
  apply Nat.le_antisymm known
  apply Nat.le_of_not_lt
  exact fun earlier => fresh ⟨conn, handled, earlier⟩

private theorem read_current (chain : OneChain s) {index : Nat} {error : Bool}
    {op : Operation Receive}
    (start : s.link.reads[index]? = some op) (opened : s.link.opened = true)
    (guarded : StaleIdle s (.handleRead index error) next) : op.conn = s.link.attempt := by
  apply current_of_notStale s (.handleRead index error)
  · simp [handledConn, start]
  · exact chain.budget.reads.get start
  · intro stale
    have closed : s.link.opened = false := guarded stale
    rw [opened] at closed
    cases closed

private theorem connect_current (chain : OneChain s) {index : Nat} {op : Operation Unit}
    (start : s.link.connects[index]? = some op)
    (guarded : StaleIdle s (.handleConnect index false) next) : op.conn = s.link.attempt := by
  apply current_of_notStale s (.handleConnect index false)
  · simp [handledConn, start]
  · exact chain.budget.connects.get start
  · intro stale
    exact absurd (guarded stale).1 (by simp)

private theorem budget_step (chain : OneChain s) (transition : Transition layout s event next)
    (guarded : StaleIdle s event next) : next.link.ReadBudget := by
  have budget := chain.budget
  cases transition with
  | reopened closed => exact budget.doConnect
  | connected index op start live unlost =>
    have count := Operation.outstanding_set s.link.attempt
      { op with state := .done } start (by rw [Operation.on, Operation.on, live]; rfl)
    have known := budget.connects.get start
    exact budget.fewer rfl (budget.connects.set known) budget.reads
      (Nat.le_of_eq count) (Nat.le_refl _)
  | receivedHead index op t bytes start live up kind length =>
    have count := Operation.outstanding_set s.link.attempt
      { op with what := .head (.ofData layout bytes), state := .done } start
      (by rw [Operation.on, Operation.on, live]; rfl)
    have known := budget.reads.get start
    exact budget.fewer rfl budget.connects (budget.reads.set known)
      (Nat.le_refl _) (Nat.le_of_eq count)
  | receivedMsg index op p length bytes filled start live up kind copied =>
    have count := Operation.outstanding_set s.link.attempt
      { op with state := .done } start (by rw [Operation.on, Operation.on, live]; rfl)
    have known := budget.reads.get start
    exact budget.fewer rfl budget.connects (budget.reads.set known)
      (Nat.le_refl _) (Nat.le_of_eq count)
  | connectOk index op link erased start done reading erases =>
    rw [erases.rest]
    exact budget.firstRead start (connect_current chain start guarded) done reading
  | connectFailed index op start failed =>
    have ended := budget.endConnect index
    exact ended.abortAll _ _
  | readClosed index error op start delivers closed => exact (budget.endRead index).doConnect
  | headFailed index op t link start failed opened kind closing =>
    exact (budget.endRead index).doClose closing
  | msgFailed index op p length link start failed opened kind closing =>
    exact (budget.endRead index).doClose closing
  | headKnown index op head p known readMsg link start done opened kind present headed buffer
      reading =>
    exact budget.nextRead start (read_current chain start opened guarded) done reading
  | headUnknown index op head readMsg link start done opened kind unknown buffer reading =>
    exact budget.nextRead start (read_current chain start opened guarded) done reading
  | msgOk index op p length readMsg link start done opened kind body reading =>
    exact budget.nextRead start (read_current chain start opened guarded) done reading
  | writeClosed index error op start delivers closed => exact (budget.endWrite _).doConnect
  | writeFailed index op link start failed opened closing =>
    exact (budget.endWrite _).doClose closing
  | writeOk index op start done opened nothing => exact budget.endWrite _
  | writeNext index op m queue link start done opened mode status popped writing =>
    obtain ⟨new, what, conn, on, rfl⟩ := Link.asyncWrite_eq_some writing
    exact budget.endWrite _
  | postedNext index m queue link queued status popped writing =>
    obtain ⟨new, what, conn, on, rfl⟩ := Link.asyncWrite_eq_some writing
    exact budget.endWrite _
  | postedMsg index m link queued status writing =>
    obtain ⟨new, what, conn, on, rfl⟩ := Link.asyncWrite_eq_some writing
    exact budget.endWrite _
  | postedClose index link queued closing => exact budget.doClose closing
  | sent index op start live up => exact budget.endWrite _
  | erased error timer after moved erases =>
    rw [erases.rest]
    exact budget
  | disturbed => exact budget.fewer rfl budget.connects budget.reads (Nat.le_refl _) (Nat.le_refl _)
  | _ => exact budget

/-- Closing an open socket does not leave it alone. -/
theorem closed_changes {l link : Link} (honest : l.Honest) (opened : l.opened = true)
    (closing : l.doClose = some link) : link.socket ≠ l.socket := by
  intro same
  have shut := honest.closed closing
  rw [Link.opened, same] at shut
  rw [Link.opened, shut] at opened
  cases opened

/-- A read that is started is one more than those left. -/
theorem read_started {l link : Link} {what : Receive} (started : l.asyncRead what = some link) :
    ¬ link.reads.length ≤ l.reads.length := by
  obtain ⟨new, _, _, _, rfl⟩ := Link.asyncRead_eq_some started
  simp

private theorem alone_of_closed (closed : s.link.opened = false)
    (reads : next.link.reads.length ≤ (otherReads s event).length)
    (writes : next.link.writes.length ≤ (otherWrites s event).length) :
    LeavesAlone s event next where
  reads _ := reads
  writes _ := writes
  socket _ opened := by
    rw [closed] at opened
    cases opened

/-- The handler of an earlier read is not idle on an open socket. -/
theorem read_not_idle {index : Nat} {error : Bool} (stale : Stale s (.handleRead index error))
    (opened : s.link.opened = true) : ¬ StaleIdle s (.handleRead index error) next := by
  intro idle
  have closed : s.link.opened = false := idle stale
  rw [opened] at closed
  cases closed

private theorem reads_leavesAlone_iff {index : Nat} {error : Bool} {link : Link} {what : Receive}
    (stale : Stale s (.handleRead index error)) (opened : s.link.opened = true)
    (reading : (s.endRead index).asyncRead what = some link) (same : next.link = link) :
    LeavesAlone s (.handleRead index error) next ↔ StaleIdle s (.handleRead index error) next := by
  refine iff_of_false ?_ (read_not_idle stale opened)
  intro alone
  have fewer := alone.reads stale
  rw [same] at fewer
  exact read_started reading fewer

private theorem closes_leavesAlone_iff {index : Nat} {error : Bool} {link : Link}
    (honest : s.link.Honest)
    (stale : Stale s (.handleRead index error)) (opened : s.link.opened = true)
    (closing : (s.endRead index).doClose = some link) (same : next.link = link) :
    LeavesAlone s (.handleRead index error) next ↔ StaleIdle s (.handleRead index error) next := by
  refine iff_of_false ?_ (read_not_idle stale opened)
  intro alone
  have kept := alone.socket stale opened
  rw [same] at kept
  exact closed_changes (l := s.endRead index) honest opened closing kept

private theorem leavesAlone_iff (chain : OneChain s) (transition : Transition layout s event next) :
    LeavesAlone s event next ↔ StaleIdle s event next := by
  by_cases stale : Stale s event
  · have quiet := sends_cases transition chain.writes
    cases transition with
    | connectOk index op link erased start done reading erases =>
      constructor
      · intro alone
        have fewer := alone.reads stale
        have more := read_started reading
        rw [erases.rest] at fewer
        exact absurd fewer more
      · exact fun idle => absurd (idle stale).1 (by simp)
    | connectFailed index op start failed =>
      constructor
      · intro alone _
        refine ⟨rfl, ?_⟩
        cases opened : s.link.opened with
        | false => rfl
        | true =>
          have same : some { isOpen := false, connected := false } = s.link.socket :=
            alone.socket stale opened
          rw [Link.opened, ← same] at opened
          cases opened
      · intro idle
        refine alone_of_closed (idle stale).2 ?_ ?_
        · exact Nat.le_of_eq (List.length_map _)
        · exact Nat.le_of_eq (List.length_map _)
    | readClosed index error op start delivers closed =>
      refine iff_of_true (alone_of_closed closed ?_ ?_) fun _ => closed
      · exact Nat.le_of_eq (congrArg List.length (Link.doConnect_reads _))
      · exact Nat.le_of_eq (congrArg List.length (Link.doConnect_writes _))
    | headFailed index op t link start failed opened kind closing =>
      exact closes_leavesAlone_iff chain.honest stale opened closing rfl
    | msgFailed index op p length link start failed opened kind closing =>
      exact closes_leavesAlone_iff chain.honest stale opened closing rfl
    | headKnown index op head p known readMsg link start done opened kind present headed buffer
        reading =>
      exact reads_leavesAlone_iff stale opened reading rfl
    | headUnknown index op head readMsg link start done opened kind unknown buffer reading =>
      exact reads_leavesAlone_iff stale opened reading rfl
    | msgOk index op p length readMsg link start done opened kind body reading =>
      exact reads_leavesAlone_iff stale opened reading rfl
    | writeClosed index error op start delivers closed =>
      refine iff_of_true (alone_of_closed closed ?_ ?_) fun _ => .inl closed
      · exact Nat.le_of_eq (congrArg List.length (Link.doConnect_reads _))
      · exact Nat.le_of_eq (congrArg List.length (Link.doConnect_writes _))
    | writeFailed index op link start failed opened closing =>
      constructor
      · exact fun alone => absurd (alone.socket stale opened)
          (closed_changes (l := s.endWrite index) chain.honest opened closing)
      · intro idle
        rcases idle stale with closed | ⟨success, _⟩
        · rw [opened] at closed
          cases closed
        · cases success
    | writeOk index op start done opened nothing =>
      rcases quiet with ⟨none, _⟩ | ⟨m, _, _, handed, _⟩
      · exact ⟨fun _ _ => .inr ⟨rfl, none⟩, fun _ => ⟨fun _ => Nat.le_refl _,
          fun _ => Nat.le_refl _, fun _ _ => rfl⟩⟩
      · simp at handed
    | writeNext index op m queue link start done opened mode status popped writing =>
      rcases quiet with ⟨_, handed, _⟩ | ⟨last, new, sending, _, _, _, _, same⟩
      · simp at handed
      · constructor
        · intro alone
          have fewer := alone.writes stale
          have length : link.writes.length =
              (otherWrites s (.handleWrite index false)).length + 1 := by
            have same : link = _ := same
            rw [same]
            simp
          rw [show ({ s with link := link, writeMsgQueue := queue, handed := s.handed ++ [m] } :
            ClientLoop).link = link from rfl, length] at fewer
          omega
        · intro idle
          rcases idle stale with closed | ⟨_, none⟩
          · rw [opened] at closed
            cases closed
          · rw [none] at sending
            cases sending
    | _ =>
      obtain ⟨conn, handled, _⟩ := stale
      cases handled
  · exact ⟨fun _ held => absurd held stale, fun _ => ⟨fun held => absurd held stale,
      fun held => absurd held stale, fun held => absurd held stale⟩⟩

/-- Connections are isolated throughout a run, and one read is outstanding at
most, exactly when every handler of an earlier connection that runs is idle. -/
theorem isolated_iff_staleIdle (layout : IntLayout) (csq : ClientSendQueue)
    (schedule : List Event) :
    (machine layout).AllSteps LeavesAlone (start csq) schedule ∧
        (machine layout).Always SingleReader (start csq) schedule ↔
      (machine layout).AllSteps StaleIdle (start csq) schedule := by
  have keeps : ∀ {before label after}, OneChain before →
      (machine layout).step before label = some after → StaleIdle before label after →
        OneChain after := by
    intro before label after chain taken guarded
    have transition := transition_of_step taken
    exact ⟨budget_step chain transition guarded, chain.honest.step (link_moves transition),
      early_step transition chain.writes⟩
  have exactly : (machine layout).AllSteps LeavesAlone (start csq) schedule ↔
      (machine layout).AllSteps StaleIdle (start csq) schedule := Machine.allSteps_iff OneChain
    (fun chain taken => leavesAlone_iff chain (transition_of_step taken)) keeps
    (OneChain.initial csq) schedule
  constructor
  · exact fun held => exactly.mp held.1
  · intro guarded
    refine ⟨exactly.mpr guarded, ?_⟩
    apply Machine.always_of_guarded OneChain _ keeps (OneChain.initial csq) guarded
    intro state chain
    exact Nat.le_trans (Nat.le_add_left _ _) chain.budget.single

/-- A reply's header has arrived when the user closes the connection and asks
for it again; its handler runs after that, and the new connection comes up. -/
def reopenedEarly : List Event :=
  [.connected 0, .handleConnect 0 false, .received 0 [9, 0, 0, 0, 1, 0, 0, 0, 8, 0, 0, 0], .close,
    .runPosted 0, .isOpen, .handleRead 0 false, .connected 0, .handleConnect 0 false]

/-- The old handler starts a read on the new socket, and the new connection another one. -/
theorem reopenedEarly_reads_twice :
    ¬ ((machine .littleEndian).AllSteps LeavesAlone (start .on) reopenedEarly ∧
      (machine .littleEndian).Always SingleReader (start .on) reopenedEarly) := by
  intro both
  have outcome : ((machine .littleEndian).run (start .on) reopenedEarly).map
      (fun s => s.link.reading) = some 2 := by
    decide +kernel
  obtain ⟨final, reached, reading⟩ := Option.map_eq_some_iff.mp outcome
  have single := both.2.final reached
  rw [SingleReader, reading] at single
  omega

end ClientLoop

end RpcLoop
