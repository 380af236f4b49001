import RpcLoop.Client.Loop

/-! What each step of a client can do. Later results use these inversion
lemmas and never unfold a handler. -/

namespace RpcLoop

open Foundation Asio Shared

/-- `read` has collected the entry; the erase timer may delete it. -/
def RpcStruct.Marked (m : RpcStruct) : Prop :=
  m.eraseFlag = .eraseState ∨ m.eraseFlag = .eraseExec

namespace ClientLoop

variable {layout : IntLayout} {s next : ClientLoop}

theorem toOption_eq_some {α : Type} {result : Except Fault α} {value : α} :
    result.toOption = some value ↔ result = .ok value := by
  cases result <;> simp [Except.toOption]

/-! ### The erase timer -/

/-- A round takes the first id of the list. -/
inductive Erasure (s : ClientLoop) (reqid : Int32) (rest : List Int32) : ClientLoop → Prop where
  | absent (missing : s.recvMsgMap[reqid]? = none) :
      Erasure s reqid rest { s with delReqidList := { head := some reqid, items := rest } }
  | erased (p : Ptr) (found : s.recvMsgMap[reqid]? = some p)
      (exec : (s.entries p).eraseFlag = .eraseExec) :
      Erasure s reqid rest { s with
        delReqidList := { head := some reqid, items := rest }
        recvMsgMap := s.recvMsgMap.erase reqid }
  | marked (p : Ptr) (found : s.recvMsgMap[reqid]? = some p)
      (state : (s.entries p).eraseFlag = .eraseState) :
      Erasure s reqid rest { s.store p { s.entries p with eraseFlag := .eraseExec } with
        delReqidList := { head := some reqid, items := rest ++ [reqid] } }
  | kept (p : Ptr) (found : s.recvMsgMap[reqid]? = some p) (unmarked : ¬(s.entries p).Marked) :
      Erasure s reqid rest { s with
        delReqidList := { head := some reqid, items := rest ++ [reqid] } }

theorem eraseOne_nil (items : s.delReqidList.items = []) : s.eraseOne = s := by
  simp only [eraseOne, SafeQueue.pop, items]

theorem eraseOne_cases {reqid : Int32} {rest : List Int32}
    (items : s.delReqidList.items = reqid :: rest) : Erasure s reqid rest s.eraseOne := by
  have popped : s.delReqidList.pop = some (reqid, { head := some reqid, items := rest }) := by
    simp only [SafeQueue.pop, items]
  unfold eraseOne
  rw [popped]
  dsimp only
  cases found : s.recvMsgMap[reqid]? with
  | none => exact .absent found
  | some p =>
    dsimp only
    split
    · exact .erased p found ‹_›
    · split
      · exact .marked p found ‹_›
      · refine .kept p found ?_
        rintro (state | exec)
        · contradiction
        · contradiction

/-- What runs of the erase loop do to the map and its entries: only marked
entries leave the map, and only deletion marks of marked entries change. -/
structure Erases (s next : ClientLoop) : Prop where
  rest : next = { s with
    recvMsgMap := next.recvMsgMap
    delReqidList := next.delReqidList
    entries := next.entries }
  sub : ∀ (id : Int32) (p : Ptr), next.recvMsgMap[id]? = some p → s.recvMsgMap[id]? = some p
  kept : ∀ (id : Int32) (p : Ptr), s.recvMsgMap[id]? = some p →
    next.recvMsgMap[id]? = some p ∨ (s.entries p).Marked
  entry : ∀ p, next.entries p = { s.entries p with eraseFlag := (next.entries p).eraseFlag }
  marked : ∀ p, (next.entries p).Marked ↔ (s.entries p).Marked

theorem Erases.refl (s : ClientLoop) : Erases s s where
  rest := rfl
  sub _ _ found := found
  kept _ _ found := .inl found
  entry _ := rfl
  marked _ := Iff.rfl

theorem Erases.trans {middle : ClientLoop} (first : Erases s middle) (second : Erases middle next) :
    Erases s next where
  rest := by
    rw [second.rest, first.rest]
  sub id p found := first.sub id p (second.sub id p found)
  kept id p found := by
    rcases first.kept id p found with still | erased
    · rcases second.kept id p still with kept | marked
      · exact .inl kept
      · exact .inr ((first.marked p).mp marked)
    · exact .inr erased
  entry p := by
    have same := second.entry p
    rw [first.entry p] at same
    exact same
  marked p := (second.marked p).trans (first.marked p)

theorem getElem?_of_erase {id other : Int32} {map : Std.TreeMap Int32 Ptr} {p : Ptr}
    (found : (map.erase id)[other]? = some p) : map[other]? = some p := by
  rw [Std.TreeMap.getElem?_erase] at found
  split at found
  · cases found
  · exact found

theorem getElem?_erase_of_ne {id other : Int32} (different : other ≠ id)
    (map : Std.TreeMap Int32 Ptr) : (map.erase id)[other]? = map[other]? := by
  rw [Std.TreeMap.getElem?_erase, if_neg]
  intro equal
  exact different (Std.LawfulEqCmp.compare_eq_iff_eq.mp equal).symm

theorem eraseOne_erases (s : ClientLoop) : Erases s s.eraseOne := by
  cases items : s.delReqidList.items with
  | nil =>
    rw [eraseOne_nil items]
    exact .refl s
  | cons reqid rest =>
    have erasure := eraseOne_cases items
    generalize s.eraseOne = next at erasure ⊢
    cases erasure with
    | absent missing =>
      exact ⟨rfl, fun _ _ same => same, fun _ _ same => .inl same, fun _ => rfl, fun _ => Iff.rfl⟩
    | kept p found unmarked =>
      exact ⟨rfl, fun _ _ same => same, fun _ _ same => .inl same, fun _ => rfl, fun _ => Iff.rfl⟩
    | erased p found exec =>
      refine ⟨rfl, fun _ _ => getElem?_of_erase, ?_, fun _ => rfl, fun _ => Iff.rfl⟩
      intro id q same
      by_cases equal : id = reqid
      · subst equal
        cases found.symm.trans same
        exact .inr (.inr exec)
      · exact .inl ((getElem?_erase_of_ne equal _).trans same)
    | marked p found state =>
      refine ⟨rfl, fun _ _ same => same, fun _ _ same => .inl same, ?_, ?_⟩
      · intro q
        by_cases equal : q = p
        · subst equal
          simp [store]
        · simp [store, equal]
      · intro q
        by_cases equal : q = p
        · subst equal
          simp [store, RpcStruct.Marked, state]
        · simp [store, equal]

theorem eraseLoop_erases (rounds i : Nat) (s : ClientLoop) : Erases s (eraseLoop rounds i s) := by
  induction rounds generalizing i s with
  | zero => exact .refl s
  | succ rounds ih =>
    unfold eraseLoop
    split
    · exact (eraseOne_erases s).trans (ih (i + 1) s.eraseOne)
    · exact .refl s

/-- `erase_msg_timer` runs its loop and arms its timer again. -/
theorem eraseMsgTimer_cases (s : ClientLoop) :
    ∃ erased, Erases s erased ∧
      s.eraseMsgTimer = { erased with eTimer := s.eTimer.expiresFromNow.asyncWait } := by
  refine ⟨_, eraseLoop_erases s.delReqidList.size 0 s, ?_⟩
  have timer : (eraseLoop s.delReqidList.size 0 s).eTimer = s.eTimer := by
    rw [(eraseLoop_erases s.delReqidList.size 0 s).rest]
  rw [eraseMsgTimer]
  simp only [timer]

/-! ### Steps -/

/-- The link behind the start of a handler, which ends its operation. -/
def endConnect (s : ClientLoop) (index : Nat) : Link :=
  { s.link with connects := s.link.connects.eraseIdx index }

def endRead (s : ClientLoop) (index : Nat) : Link :=
  { s.link with reads := s.link.reads.eraseIdx index }

def endWrite (s : ClientLoop) (index : Nat) : Link :=
  { s.link with writes := s.link.writes.eraseIdx index }

/-- The steps of a client, by the branch that its code takes. -/
inductive Transition (layout : IntLayout) (s : ClientLoop) : Event → ClientLoop → Prop where
  | begun (msg : List Cell) (msgL : Int32) (res : RpcStruct)
      (built : requestMsg layout s.msgIndex msg msgL = .ok res) :
      Transition layout s (.beginWrite msg msgL) { s with
        msgIndex := s.msgIndex + 1
        allocated := s.allocated + 1
        writers := s.writers ++ [.built { addr := s.allocated, obj := res }] }
  | pushed (caller : Nat) (m : Outgoing) (stage : s.writers[caller]? = some (.built m))
      (mode : s.csq = .on) :
      Transition layout s (.push caller) { s with
        writeMsgQueue := s.writeMsgQueue.push m
        writers := s.writers.set caller (.queued m)
        pushed := s.pushed ++ [m] }
  | unqueued (caller : Nat) (m : Outgoing) (stage : s.writers[caller]? = some (.built m))
      (mode : s.csq ≠ .on) :
      Transition layout s (.push caller) { s with writers := s.writers.set caller (.queued m) }
  | inserted (caller : Nat) (m : Outgoing) (stage : s.writers[caller]? = some (.queued m)) :
      Transition layout s (.insert caller) { s with
        recvMsgMap := s.recvMsgMap.insert m.obj.headInfo.reqId s.allocated
        entries := Function.update s.entries s.allocated (recvEntry m.obj.headInfo.reqId)
        allocated := s.allocated + 1
        writers := s.writers.set caller (.inserted m s.allocated)
        registered :=
          { addr := m.addr, reqId := m.obj.headInfo.reqId, entry := s.allocated } :: s.registered }
  | armed (caller : Nat) (m : Outgoing) (p : Ptr)
      (stage : s.writers[caller]? = some (.inserted m p)) :
      Transition layout s (.arm caller) { s.store p (s.entries p).doInitTimer with
        writers := s.writers.set caller (.armed m) }
  | returned (caller : Nat) (m : Outgoing) (stage : s.writers[caller]? = some (.armed m)) :
      Transition layout s (.post caller) { s with
        posted := s.posted ++ [if s.csq = .on then .doWrite else .doWriteMsg m]
        writers := s.writers.eraseIdx caller }
  | absent (reqId : Int32) : Transition layout s (.find reqId) s
  | found (reqId : Int32) (p : Ptr) (present : s.recvMsgMap[reqId]? = some p) :
      Transition layout s (.find reqId) { s with readers := s.readers ++ [.waiting p] }
  | marked (caller : Nat) (p : Ptr) (stage : s.readers[caller]? = some (.waiting p))
      (final : (s.entries p).status = .error ∨ (s.entries p).status = .readOk ∨
        (s.entries p).status = .timeout) :
      Transition layout s (.mark caller)
        { s.store p { s.entries p with eraseFlag := .eraseState } with
          readers := s.readers.set caller (.marked p)
          collected := p :: s.collected }
  | listed (caller : Nat) (p : Ptr) (stage : s.readers[caller]? = some (.marked p)) :
      Transition layout s (.list caller) { s with
        delReqidList := s.delReqidList.push (s.entries p).headInfo.reqId
        readers := s.readers.eraseIdx caller }
  | closeAsked : Transition layout s .close { s with posted := s.posted ++ [.doClose] }
  | stayedOpen (opened : s.link.opened = true) : Transition layout s .isOpen s
  | reopened (closed : s.link.opened = false) :
      Transition layout s .isOpen { s with link := s.link.doConnect }
  | connected (index : Nat) (op : Operation Unit) (start : s.link.connects[index]? = some op)
      (live : op.state = .live) (unlost : s.link.lost = false) :
      Transition layout s (.connected index) { s with link := { s.link with
        socket := s.link.establish
        connects := s.link.connects.set index { op with state := .done } } }
  | disturbed (lost shuts : Bool) (socket after : Socket) (found : s.link.socket = some socket)
      (upset : Link.Disturbs socket after) :
      Transition layout s (.disturbed lost shuts) { s with
        link := { s.link with socket := some after } }
  | receivedHead (index : Nat) (op : Operation Receive) (t : RpcStructHead) (bytes : List UInt8)
      (start : s.link.reads[index]? = some op) (live : op.state = .live)
      (up : s.link.connected = true) (kind : op.what = .head t)
      (length : bytes.length = 12) :
      Transition layout s (.received index bytes) { s with link := { s.link with
        reads := s.link.reads.set index
          { op with what := .head (.ofData layout bytes), state := .done } } }
  | receivedMsg (index : Nat) (op : Operation Receive) (p : Ptr) (length : Int32)
      (bytes : List UInt8) (filled : RpcStruct) (start : s.link.reads[index]? = some op)
      (live : op.state = .live) (up : s.link.connected = true) (kind : op.what = .msg p length)
      (copied : (s.entries p).receive bytes length = .ok filled) :
      Transition layout s (.received index bytes) { s.store p filled with link := { s.link with
        reads := s.link.reads.set index { op with state := .done } } }
  | sent (index : Nat) (op : Operation Outgoing) (start : s.link.writes[index]? = some op)
      (live : op.state = .live) (up : s.link.connected = true) :
      Transition layout s (.sent index) { s with link := { s.link with
        writes := s.link.writes.set index { op with state := .done } } }
  | connectOk (index : Nat) (op : Operation Unit) (link : Link) (erased : ClientLoop)
      (start : s.link.connects[index]? = some op) (done : op.state = .done)
      (reading :
        { s.endConnect index with clietnStatus := .connOk }.asyncRead (.head {}) = some link)
      (erases : Erases { s with link := link } erased) :
      Transition layout s (.handleConnect index false) { erased with
        eTimer := s.eTimer.expiresFromNow.asyncWait }
  | connectFailed (index : Nat) (op : Operation Unit) (start : s.link.connects[index]? = some op)
      (failed : op.state ≠ .done) :
      Transition layout s (.handleConnect index true) { s with
        link := { s.endConnect index with clietnStatus := .error }.resetSocket }
  | readClosed (index : Nat) (error : Bool) (op : Operation Receive)
      (start : s.link.reads[index]? = some op) (delivers : op.Delivers error)
      (closed : s.link.opened = false) :
      Transition layout s (.handleRead index error) { s with link := (s.endRead index).doConnect }
  | headFailed (index : Nat) (op : Operation Receive) (t : RpcStructHead) (link : Link)
      (start : s.link.reads[index]? = some op) (failed : op.state ≠ .done)
      (opened : s.link.opened = true) (kind : op.what = .head t)
      (closing : (s.endRead index).doClose = some link) :
      Transition layout s (.handleRead index true) { s with link := link }
  | headKnown (index : Nat) (op : Operation Receive) (head : RpcStructHead) (p : Ptr)
      (known readMsg : RpcStruct) (link : Link) (start : s.link.reads[index]? = some op)
      (done : op.state = .done) (opened : s.link.opened = true) (kind : op.what = .head head)
      (present : s.recvMsgMap[head.reqId]? = some p)
      (headed : (s.entries p).setHead layout head = .ok known)
      (buffer : known.recvMsgBuff layout = .ok readMsg)
      (reading : (s.endRead index).asyncRead (.msg p readMsg.recvMsgLen) = some link) :
      Transition layout s (.handleRead index false) { s.store p readMsg with link := link }
  | headUnknown (index : Nat) (op : Operation Receive) (head : RpcStructHead)
      (readMsg : RpcStruct) (link : Link) (start : s.link.reads[index]? = some op)
      (done : op.state = .done) (opened : s.link.opened = true) (kind : op.what = .head head)
      (unknown : s.recvMsgMap[head.reqId]? = none)
      (buffer : (RpcStruct.ofHead head).recvMsgBuff layout = .ok readMsg)
      (reading : (s.endRead index).asyncRead (.msg s.allocated readMsg.recvMsgLen) = some link) :
      Transition layout s (.handleRead index false) { s.store s.allocated readMsg with
        allocated := s.allocated + 1
        link := link }
  | msgFailed (index : Nat) (op : Operation Receive) (p : Ptr) (length : Int32) (link : Link)
      (start : s.link.reads[index]? = some op) (failed : op.state ≠ .done)
      (opened : s.link.opened = true) (kind : op.what = .msg p length)
      (closing : (s.endRead index).doClose = some link) :
      Transition layout s (.handleRead index true)
        { s.store p ((s.entries p).setStatus .error) with link := link }
  | msgOk (index : Nat) (op : Operation Receive) (p : Ptr) (length : Int32) (readMsg : RpcStruct)
      (link : Link) (start : s.link.reads[index]? = some op) (done : op.state = .done)
      (opened : s.link.opened = true) (kind : op.what = .msg p length)
      (body : (s.entries p).body layout = .ok readMsg)
      (reading : (s.endRead index).asyncRead (.head {}) = some link) :
      Transition layout s (.handleRead index false)
        { s.store p (readMsg.setStatus .readOk) with
          answered := p :: s.answered
          link := link }
  | writeClosed (index : Nat) (error : Bool) (op : Operation Outgoing)
      (start : s.link.writes[index]? = some op) (delivers : op.Delivers error)
      (closed : s.link.opened = false) :
      Transition layout s (.handleWrite index error) { s with link := (s.endWrite index).doConnect }
  | writeFailed (index : Nat) (op : Operation Outgoing) (link : Link)
      (start : s.link.writes[index]? = some op) (failed : op.state ≠ .done)
      (opened : s.link.opened = true)
      (closing : (s.endWrite index).doClose = some link) :
      Transition layout s (.handleWrite index true) { s with link := link }
  | writeOk (index : Nat) (op : Operation Outgoing) (start : s.link.writes[index]? = some op)
      (done : op.state = .done) (opened : s.link.opened = true)
      (nothing : s.csq = .on → s.link.clietnStatus = .connOk → s.writeMsgQueue.items = []) :
      Transition layout s (.handleWrite index false) { s with link := s.endWrite index }
  | writeNext (index : Nat) (op : Operation Outgoing) (m : Outgoing) (queue : SafeQueue Outgoing)
      (link : Link) (start : s.link.writes[index]? = some op) (done : op.state = .done)
      (opened : s.link.opened = true) (mode : s.csq = .on) (status : s.link.clietnStatus = .connOk)
      (popped : s.writeMsgQueue.pop = some (m, queue))
      (writing : (s.endWrite index).asyncWrite m = some link) :
      Transition layout s (.handleWrite index false) { s with
        link := link
        writeMsgQueue := queue
        handed := s.handed ++ [m] }
  | postedQuiet (index : Nat) (handler : Posted) (queued : s.posted[index]? = some handler)
      (nothing : s.link.clietnStatus = .connOk → handler = .doWrite ∧ s.writeMsgQueue.items = [])
      (kind : handler ≠ .doClose) :
      Transition layout s (.runPosted index) { s with posted := s.posted.eraseIdx index }
  | postedNext (index : Nat) (m : Outgoing) (queue : SafeQueue Outgoing) (link : Link)
      (queued : s.posted[index]? = some .doWrite) (status : s.link.clietnStatus = .connOk)
      (popped : s.writeMsgQueue.pop = some (m, queue)) (writing : s.link.asyncWrite m = some link) :
      Transition layout s (.runPosted index) { s with
        link := link
        writeMsgQueue := queue
        posted := s.posted.eraseIdx index
        handed := s.handed ++ [m] }
  | postedMsg (index : Nat) (m : Outgoing) (link : Link)
      (queued : s.posted[index]? = some (.doWriteMsg m)) (status : s.link.clietnStatus = .connOk)
      (writing : s.link.asyncWrite m = some link) :
      Transition layout s (.runPosted index) { s with
        link := link
        posted := s.posted.eraseIdx index
        handed := s.handed ++ [m] }
  | postedClose (index : Nat) (link : Link) (queued : s.posted[index]? = some .doClose)
      (closing : s.link.doClose = some link) :
      Transition layout s (.runPosted index) { s with
        link := link
        posted := s.posted.eraseIdx index }
  | expired (p : Ptr) (timer : DeadlineTimer) (moved : (s.entries p).timer.expire = some timer) :
      Transition layout s (.expire p) (s.store p { s.entries p with timer := timer })
  | timedOut (p : Ptr) (timer : DeadlineTimer)
      (moved : (s.entries p).timer.takeExpired = some timer) :
      Transition layout s (.timeout p)
        (s.store p (RpcStruct.setTimeout { s.entries p with timer := timer } false))
  | timeoutCancelled (p : Ptr) (timer : DeadlineTimer)
      (moved : (s.entries p).timer.takeCancelled = some timer) :
      Transition layout s (.timeoutCancelled p) (s.store p { s.entries p with timer := timer })
  | eraseExpired (timer : DeadlineTimer) (moved : s.eTimer.expire = some timer) :
      Transition layout s .eraseExpire { s with eTimer := timer }
  | erased (error : Bool) (timer : DeadlineTimer) (after : ClientLoop)
      (moved : (if error then s.eTimer.takeCancelled else s.eTimer.takeExpired) = some timer)
      (erases : Erases { s with eTimer := timer } after) :
      Transition layout s (.eraseTimer error) { after with
        eTimer := timer.expiresFromNow.asyncWait }

theorem store_store (s : ClientLoop) (p : Ptr) (first second : RpcStruct) :
    (s.store p first).store p second = s.store p second := by
  simp [store]

theorem doReadHead_cases (step : s.doReadHead = some next) :
    ∃ link, s.link.asyncRead (.head {}) = some link ∧ next = { s with link := link } := by
  simp only [doReadHead, Option.bind_eq_bind, Option.bind_eq_some_iff, Option.pure_def] at step
  obtain ⟨link, reading, same⟩ := step
  exact ⟨link, reading, (Option.some.inj same).symm⟩

private theorem doReadMsg_cases {p : Ptr} (step : s.doReadMsg layout p = some next) :
    ∃ readMsg link, (s.entries p).recvMsgBuff layout = .ok readMsg ∧
      s.link.asyncRead (.msg p readMsg.recvMsgLen) = some link ∧
      next = { s.store p readMsg with link := link } := by
  simp only [doReadMsg, Option.bind_eq_bind, Option.bind_eq_some_iff, Option.pure_def] at step
  obtain ⟨readMsg, buffer, link, reading, same⟩ := step
  refine ⟨readMsg, link, ?_, reading, (Option.some.inj same).symm⟩
  exact toOption_eq_some.mp buffer

/-- On an open socket the read is started as soon as the buffer is there. -/
theorem doReadMsg_of_opened {p : Ptr} {readMsg : RpcStruct} (opened : s.link.opened = true)
    (buffer : (s.entries p).recvMsgBuff layout = .ok readMsg) :
    s.doReadMsg layout p = some { s.store p readMsg with
      link := { s.link with
        reads := s.link.reads ++ [⟨.msg p readMsg.recvMsgLen, s.link.attempt, .live⟩] } } := by
  simp only [doReadMsg, buffer, Except.toOption, Option.bind_eq_bind, Option.bind_some,
    Link.asyncRead_of_opened opened, Option.pure_def]

theorem doClose_cases (step : s.doClose = some next) :
    ∃ link, s.link.doClose = some link ∧ next = { s with link := link } := by
  simp only [doClose, Option.bind_eq_bind, Option.bind_eq_some_iff, Option.pure_def] at step
  obtain ⟨link, closing, same⟩ := step
  exact ⟨link, closing, (Option.some.inj same).symm⟩

theorem sendMsg_cases {m : Outgoing} (step : s.sendMsg m = some next) :
    ∃ link, s.link.asyncWrite m = some link ∧
      next = { s with link := link, handed := s.handed ++ [m] } := by
  simp only [sendMsg, Option.bind_eq_bind, Option.bind_eq_some_iff, Option.pure_def] at step
  obtain ⟨link, writing, same⟩ := step
  exact ⟨link, writing, (Option.some.inj same).symm⟩

/-- `do_write` does nothing unless it is connected and finds a message. -/
theorem doWrite_cases (step : s.doWrite = some next) :
    ((s.link.clietnStatus = .connOk → s.writeMsgQueue.items = []) ∧ next = s) ∨
    ∃ m queue link, s.link.clietnStatus = .connOk ∧ s.writeMsgQueue.pop = some (m, queue) ∧
      s.link.asyncWrite m = some link ∧
      next = { s with link := link, writeMsgQueue := queue, handed := s.handed ++ [m] } := by
  unfold doWrite at step
  split at step
  · rename_i down
    exact .inl ⟨fun up => absurd up down, (Option.some.inj step).symm⟩
  · rename_i up
    split at step
    · rename_i empty
      left
      refine ⟨fun _ => ?_, (Option.some.inj step).symm⟩
      unfold SafeQueue.pop at empty
      split at empty
      · rename_i items
        exact items
      · cases empty
    · rename_i m queue popped
      obtain ⟨link, writing, same⟩ := sendMsg_cases step
      exact .inr ⟨m, queue, link, Decidable.not_not.mp up, popped, writing, same⟩

/-- A handler behind `if(!is_open())return;` either reconnects or goes on unchanged. -/
theorem ifOpen_cases {rest : ClientLoop → Option ClientLoop} (step : s.ifOpen rest = some next) :
    (s.link.opened = false ∧ next = { s with link := s.link.doConnect }) ∨
    (s.link.opened = true ∧ rest s = some next) := by
  simp only [ifOpen, Option.bind_eq_bind, Option.bind_eq_some_iff, Option.pure_def] at step
  obtain ⟨⟨answer, link⟩, asked, step⟩ := step
  obtain ⟨opened, ⟨rfl, rfl⟩ | ⟨rfl, rfl⟩⟩ := Link.isOpen_eq_some asked
  · exact .inr ⟨opened, step⟩
  · simp only [if_true, Option.some.injEq] at step
    exact .inl ⟨opened, step.symm⟩

private theorem caller_transition {event : Event}
    (step : ClientLoop.step layout s event = some next)
    (calls : match event with
      | .beginWrite .. | .push _ | .insert _ | .arm _ | .post _ | .find _ | .mark _ | .list _ =>
        True
      | _ => False) : Transition layout s event next := by
  cases event with
  | beginWrite msg msgL =>
    simp only [ClientLoop.step, beginWrite, Option.bind_eq_bind, Option.bind_eq_some_iff,
      Option.pure_def] at step
    obtain ⟨res, built, same⟩ := step
    cases same
    exact .begun msg msgL res (toOption_eq_some.mp built)
  | push caller =>
    simp only [ClientLoop.step, pushMsg] at step
    split at step
    · rename_i m stage
      split at step
      · rename_i mode
        cases step
        exact .pushed caller m stage mode
      · rename_i mode
        cases step
        exact .unqueued caller m stage mode
    · cases step
  | insert caller =>
    simp only [ClientLoop.step, insertEntry] at step
    split at step
    · rename_i m stage
      cases step
      exact .inserted caller m stage
    · cases step
  | arm caller =>
    simp only [ClientLoop.step, armTimer] at step
    split at step
    · rename_i m p stage
      cases step
      exact .armed caller m p stage
    · cases step
  | post caller =>
    simp only [ClientLoop.step, postWrite] at step
    split at step
    · rename_i m stage
      cases step
      exact .returned caller m stage
    · cases step
  | find reqId =>
    simp only [ClientLoop.step, findEntry] at step
    split at step
    · cases step
      exact .absent reqId
    · rename_i p present
      cases step
      exact .found reqId p present
  | mark caller =>
    simp only [ClientLoop.step, markEntry] at step
    split at step
    · rename_i p stage
      split at step
      · rename_i final
        cases step
        exact .marked caller p stage final
      · cases step
    · cases step
  | list caller =>
    simp only [ClientLoop.step, listEntry] at step
    split at step
    · rename_i p stage
      cases step
      exact .listed caller p stage
    · cases step
  | _ => exact calls.elim

private theorem network_transition {event : Event}
    (step : ClientLoop.step layout s event = some next)
    (network : match event with
      | .connected _ | .received .. | .sent _ | .disturbed .. => True
      | _ => False) : Transition layout s event next := by
  cases event with
  | connected index =>
    simp only [ClientLoop.step, completeConnect, Option.bind_eq_bind, Option.bind_eq_some_iff,
      Option.pure_def] at step
    obtain ⟨op, start, step⟩ := step
    split at step
    · rename_i live
      cases step
      exact .connected index op start live.1 live.2
    · cases step
  | disturbed lost shuts =>
    simp only [ClientLoop.step, Option.bind_eq_bind, Option.bind_eq_some_iff,
      Option.pure_def] at step
    obtain ⟨link, turned, same⟩ := step
    cases same
    obtain ⟨socket, after, found, upset, rfl⟩ := Link.disturb_eq_some turned
    exact .disturbed lost shuts socket after found upset
  | received index bytes =>
    simp only [ClientLoop.step, completeRead, Option.bind_eq_bind, Option.bind_eq_some_iff,
      Option.pure_def] at step
    obtain ⟨op, start, step⟩ := step
    split at step
    · rename_i live
      split at step
      · rename_i t kind
        split at step
        · rename_i length
          cases step
          exact .receivedHead index op t bytes start live.1 live.2 kind length
        · cases step
      · rename_i p length kind
        split at step
        · simp only [Option.bind_eq_some_iff] at step
          obtain ⟨filled, copied, same⟩ := step
          cases same
          exact .receivedMsg index op p length bytes filled start live.1 live.2 kind
            (toOption_eq_some.mp copied)
        · cases step
    · cases step
  | sent index =>
    simp only [ClientLoop.step, completeWrite, Option.bind_eq_bind, Option.bind_eq_some_iff,
      Option.pure_def] at step
    obtain ⟨op, start, step⟩ := step
    split at step
    · rename_i live
      cases step
      exact .sent index op start live.1 live.2
    · cases step
  | _ => exact network.elim

private theorem invokeConnect_transition {index : Nat} {error : Bool}
    (step : s.invokeConnect index error = some next) :
    Transition layout s (.handleConnect index error) next := by
  simp only [invokeConnect, Option.bind_eq_bind, Option.bind_eq_some_iff] at step
  obtain ⟨op, start, step⟩ := step
  split at step
  · rename_i delivers
    cases error with
    | true =>
      cases step
      exact .connectFailed index op start (by simpa [Operation.Delivers] using delivers)
    | false =>
      simp only [handleConnect, Bool.false_eq_true, if_false, Option.bind_eq_bind,
        Option.bind_eq_some_iff, Option.pure_def] at step
      obtain ⟨connected, reading, same⟩ := step
      cases same
      obtain ⟨link, started, rfl⟩ := doReadHead_cases reading
      obtain ⟨erased, erases, timer⟩ := eraseMsgTimer_cases { s with link := link }
      have done : op.state = .done := by simpa [Operation.Delivers] using delivers
      have result : Transition layout s (.handleConnect index false) _ :=
        .connectOk index op link erased start done started
        erases
      rw [← timer] at result
      exact result
  · cases step

private theorem invokeRead_transition {index : Nat} {error : Bool}
    (step : s.invokeRead layout index error = some next) :
    Transition layout s (.handleRead index error) next := by
  simp only [invokeRead, Option.bind_eq_bind, Option.bind_eq_some_iff] at step
  obtain ⟨op, start, step⟩ := step
  split at step
  · rename_i delivers
    rcases ifOpen_cases step with ⟨closed, same⟩ | ⟨opened, step⟩
    · cases same
      exact .readClosed index error op start delivers closed
    · cases kind : op.what with
      | head t =>
        simp only [kind] at step
        cases error with
        | true =>
          obtain ⟨link, closing, same⟩ := doClose_cases step
          cases same
          have failed : op.state ≠ .done := by simpa [Operation.Delivers] using delivers
          exact .headFailed index op t link start failed opened kind closing
        | false =>
          have done : op.state = .done := by simpa [Operation.Delivers] using delivers
          simp only [handleReadHeader, Bool.false_eq_true, if_false] at step
          split at step
          · rename_i p present
            simp only [Option.bind_eq_bind, Option.bind_eq_some_iff] at step
            obtain ⟨known, headed, step⟩ := step
            obtain ⟨readMsg, link, buffer, reading, same⟩ := doReadMsg_cases step
            rw [store_store] at same
            cases same
            simp only [store, Function.update_self] at buffer
            exact .headKnown index op t p known readMsg link start done opened kind present
              (toOption_eq_some.mp headed) buffer reading
          · rename_i unknown
            obtain ⟨readMsg, link, buffer, reading, same⟩ := doReadMsg_cases step
            cases same
            simp only [store, Function.update_self, Function.update_idem] at buffer ⊢
            exact .headUnknown index op t readMsg link start done opened kind unknown buffer reading
      | msg p length =>
        simp only [kind] at step
        cases error with
        | true =>
          obtain ⟨link, closing, same⟩ := doClose_cases step
          cases same
          have failed : op.state ≠ .done := by simpa [Operation.Delivers] using delivers
          exact .msgFailed index op p length link start failed opened kind closing
        | false =>
          have done : op.state = .done := by simpa [Operation.Delivers] using delivers
          simp only [handleReadMsg, Bool.false_eq_true, if_false, Option.bind_eq_bind,
            Option.bind_eq_some_iff] at step
          obtain ⟨readMsg, body, step⟩ := step
          obtain ⟨link, reading, same⟩ := doReadHead_cases step
          cases same
          exact .msgOk index op p length readMsg link start done opened kind
            (toOption_eq_some.mp body) reading
  · cases step

private theorem invokeWrite_transition {index : Nat} {error : Bool}
    (step : s.invokeWrite index error = some next) :
    Transition layout s (.handleWrite index error) next := by
  simp only [invokeWrite, Option.bind_eq_bind, Option.bind_eq_some_iff] at step
  obtain ⟨op, start, step⟩ := step
  split at step
  · rename_i delivers
    rcases ifOpen_cases step with ⟨closed, same⟩ | ⟨opened, step⟩
    · cases same
      exact .writeClosed index error op start delivers closed
    · cases error with
      | true =>
        obtain ⟨link, closing, same⟩ := doClose_cases step
        cases same
        have failed : op.state ≠ .done := by simpa [Operation.Delivers] using delivers
        exact .writeFailed index op link start failed opened closing
      | false =>
        have done : op.state = .done := by simpa [Operation.Delivers] using delivers
        simp only [handleWrite, Bool.false_eq_true, if_false] at step
        split at step
        · rename_i mode
          rcases doWrite_cases step with ⟨nothing, same⟩ |
            ⟨m, queue, link, up, popped, writing, same⟩
          · cases same
            exact .writeOk index op start done opened fun _ => nothing
          · cases same
            exact .writeNext index op m queue link start done opened mode up popped writing
        · rename_i mode
          cases step
          exact .writeOk index op start done opened fun on => absurd on mode
  · cases step

private theorem runPosted_transition {index : Nat} (step : s.runPosted index = some next) :
    Transition layout s (.runPosted index) next := by
  simp only [runPosted, Option.bind_eq_bind, Option.bind_eq_some_iff] at step
  obtain ⟨handler, queued, step⟩ := step
  cases handler with
  | doWrite =>
    rcases doWrite_cases step with ⟨nothing, same⟩ | ⟨m, queue, link, up, popped, writing, same⟩
    · cases same
      exact .postedQuiet index _ queued (fun up => ⟨rfl, nothing up⟩) (by simp)
    · cases same
      exact .postedNext index m queue link queued up popped writing
  | doWriteMsg m =>
    simp only [doWriteMsg] at step
    split at step
    · rename_i down
      cases step
      exact .postedQuiet index _ queued (fun up => absurd up down) (by simp)
    · rename_i up
      obtain ⟨link, writing, same⟩ := sendMsg_cases step
      cases same
      exact .postedMsg index m link queued (Decidable.not_not.mp up) writing
  | doClose =>
    obtain ⟨link, closing, same⟩ := doClose_cases step
    cases same
    exact .postedClose index link queued closing

private theorem timer_transition {event : Event} (step : ClientLoop.step layout s event = some next)
    (timers : match event with
      | .expire _ | .timeout _ | .timeoutCancelled _ | .eraseExpire | .eraseTimer _ => True
      | _ => False) : Transition layout s event next := by
  cases event with
  | expire p =>
    simp only [ClientLoop.step, withTimer, Option.bind_eq_bind, Option.bind_eq_some_iff,
      Option.pure_def] at step
    obtain ⟨timer, moved, same⟩ := step
    cases same
    exact .expired p timer moved
  | timeout p =>
    simp only [ClientLoop.step, withTimer, Option.bind_eq_bind, Option.bind_eq_some_iff,
      Option.pure_def, Option.some.injEq] at step
    obtain ⟨between, ⟨timer, moved, rfl⟩, rfl⟩ := step
    rw [store_store]
    have result : Transition layout s (.timeout p) _ := .timedOut p timer moved
    simpa [store] using result
  | timeoutCancelled p =>
    simp only [ClientLoop.step, withTimer, Option.bind_eq_bind, Option.bind_eq_some_iff,
      Option.pure_def, Option.some.injEq] at step
    obtain ⟨between, ⟨timer, moved, rfl⟩, rfl⟩ := step
    rw [store_store]
    have result : Transition layout s (.timeoutCancelled p) _ := .timeoutCancelled p timer moved
    simpa [store, RpcStruct.setTimeout] using result
  | eraseExpire =>
    simp only [ClientLoop.step, Option.bind_eq_bind, Option.bind_eq_some_iff,
      Option.pure_def] at step
    obtain ⟨timer, moved, same⟩ := step
    cases same
    exact .eraseExpired timer moved
  | eraseTimer error =>
    cases error with
    | true =>
      simp only [ClientLoop.step, if_true, Option.bind_eq_bind, Option.bind_eq_some_iff,
        Option.pure_def, Option.some.injEq] at step
      obtain ⟨timer, moved, rfl⟩ := step
      obtain ⟨after, erases, rearmed⟩ := eraseMsgTimer_cases { s with eTimer := timer }
      rw [rearmed]
      exact .erased true timer after moved erases
    | false =>
      simp only [ClientLoop.step, Bool.false_eq_true, if_false, Option.bind_eq_bind,
        Option.bind_eq_some_iff, Option.pure_def, Option.some.injEq] at step
      obtain ⟨timer, moved, rfl⟩ := step
      obtain ⟨after, erases, rearmed⟩ := eraseMsgTimer_cases { s with eTimer := timer }
      rw [rearmed]
      exact .erased false timer after moved erases
  | _ => exact timers.elim

theorem transition_of_step {event : Event}
    (step : (machine layout).step s event = some next) : Transition layout s event next := by
  change ClientLoop.step layout s event = some next at step
  cases event with
  | close =>
    cases step
    exact .closeAsked
  | isOpen =>
    simp only [ClientLoop.step, Option.bind_eq_bind, Option.bind_eq_some_iff,
      Option.pure_def] at step
    obtain ⟨⟨answer, link⟩, asked, same⟩ := step
    cases same
    obtain ⟨opened, ⟨rfl, rfl⟩ | ⟨rfl, rfl⟩⟩ := Link.isOpen_eq_some asked
    · exact .stayedOpen opened
    · exact .reopened opened
  | handleConnect index error => exact invokeConnect_transition step
  | handleRead index error => exact invokeRead_transition step
  | handleWrite index error => exact invokeWrite_transition step
  | runPosted index => exact runPosted_transition step
  | connected | received | sent | disturbed => exact network_transition step trivial
  | expire | timeout | timeoutCancelled | eraseExpire | eraseTimer =>
    exact timer_transition step trivial
  | beginWrite | push | insert | arm | post | find | mark | list =>
    exact caller_transition step trivial

/-! ### The connection -/

/-- Every step moves the connection in one of these ways. -/
theorem link_moves {event : Event} (transition : Transition layout s event next) :
    s.link.Moves next.link := by
  cases transition with
  | reopened closed => exact .reopens closed rfl
  | readClosed index error op start delivers closed =>
    exact .reopens closed (Link.doConnect_connection (l := s.endRead index) rfl)
  | writeClosed index error op start delivers closed =>
    exact .reopens closed (Link.doConnect_connection (l := s.endWrite index) rfl)
  | connected index op start live unlost => exact .succeeds index op start live unlost rfl
  | disturbed lost shuts socket after found upset => exact .disturbed socket after found upset rfl
  | connectOk index op link erased start done reading erases =>
    rw [erases.rest]
    exact .connectOk index op start done (Link.asyncRead_connection reading)
  | connectFailed index op start failed => exact .connectFailed index op start failed rfl
  | headFailed index op t link start failed opened kind closing => exact .ofClose closing rfl
  | msgFailed index op p length link start failed opened kind closing => exact .ofClose closing rfl
  | writeFailed index op link start failed opened closing => exact .ofClose closing rfl
  | postedClose index link queued closing => exact .ofClose closing rfl
  | headKnown index op head p known readMsg link start done opened kind present headed buffer
      reading => exact .ofRead reading rfl
  | headUnknown index op head readMsg link start done opened kind unknown buffer reading =>
    exact .ofRead reading rfl
  | msgOk index op p length readMsg link start done opened kind body reading =>
    exact .ofRead reading rfl
  | writeNext index op m queue link start done opened mode status popped writing =>
    exact .ofWrite writing rfl
  | postedNext index m queue link queued status popped writing =>
    exact .ofWrite writing rfl
  | postedMsg index m link queued status writing =>
    exact .ofWrite writing rfl
  | erased error timer after moved erases =>
    rw [erases.rest]
    exact .stays rfl
  | _ => exact .stays rfl

end ClientLoop

end RpcLoop
