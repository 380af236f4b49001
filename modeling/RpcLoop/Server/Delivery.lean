import RpcLoop.Message.Filled
import RpcLoop.Server.Transition

/-! Handlers that cannot fail. As long as the queue holds complete messages and
the callback's results fit a frame, replying to a complete request succeeds. -/

namespace RpcLoop

open Foundation

/-- A complete message, whose frame can be written any number of times. -/
def RpcStruct.Sendable (layout : IntLayout) (m : RpcStruct) : Prop :=
  ∃ block metaCells bodyCells, RpcStruct.Filled layout m block metaCells bodyCells

/-- No result of the callback is too long for the `int` length of a frame. -/
def ResultsFit (callFun : Option CallbackFun) : Prop :=
  ∀ callback, callFun = some callback → ∀ calls res, callback calls = some res →
    res.size.toInt + 20 ≤ 2 ^ 31 - 1

/-- And none is deleted by `reply` whose constructor gave it no memory. -/
structure ResultsSound (callFun : Option CallbackFun) : Prop where
  fit : ResultsFit callFun
  allocated : ∀ callback, callFun = some callback → ∀ calls res, callback calls = some res →
    0 < res.size ∨ res.kept = true

theorem ResultsSound.unregistered : ResultsSound none where
  fit _ registered := by cases registered
  allocated _ registered := by cases registered

/-- What a session deletes had memory. -/
theorem ResultsSound.released_of_step {layout : IntLayout} {callFun : Option CallbackFun}
    {s next : LinkSession} {event : LinkSession.Event} (results : ResultsSound callFun)
    (held : ∀ res ∈ s.released, 0 < res.size)
    (taken : (LinkSession.machine layout callFun).step s event = some next) :
    ∀ res ∈ next.released, 0 < res.size := by
  rcases LinkSession.released_of_step taken with same | ⟨calls, longer⟩
  · rw [same]
    exact held
  · intro res member
    rw [longer] at member
    rcases List.mem_append.mp member with old | new
    · exact held res old
    · obtain ⟨answered, last⟩ := Option.filter_eq_some_iff.mp (Option.mem_toList.mp new)
      obtain ⟨callback, registered, answer⟩ := Option.bind_eq_some_iff.mp answered
      rcases results.allocated callback registered calls res answer with positive | kept
      · exact positive
      · simp [kept] at last

/-- The calls that one request makes of the registered callback. -/
def callsFor (callFun : Option CallbackFun) (msg : List Cell) (msgLen : Int32) : List Call :=
  match callFun with
  | none => []
  | some _ => [⟨msg, msgLen⟩]

/-- What the registered callback answers to a call, given the calls before it. -/
def answerTo (callFun : Option CallbackFun) (calls : List Call) (call : Call) : Option CallStruct :=
  callFun.bind fun callback => callback (calls ++ [call])

/-- The header of the message `reply` builds from a result. -/
def replyHead (reqId : Int32) (size : Int32) : RpcStructHead :=
  (({} : RpcStructHead).setReqId reqId).setBodyLen size

/-- The message queued for a request: the callback's result where there is one of
a positive size, and otherwise the request itself. -/
def RpcStruct.Answers (layout : IntLayout) (head : RpcStructHead) (metaCells bodyCells : List Cell)
    (result : Option CallStruct) (m : RpcStruct) : Prop :=
  ∃ block, match result.filter fun res => 0 < res.size with
    | none => m.headInfo = head ∧ Filled layout m block metaCells bodyCells
    | some res => m.headInfo = replyHead head.reqId res.size ∧
        Filled layout m block (metaBytes.map some) res.data

theorem RpcStruct.Answers.sendable {layout : IntLayout} {head : RpcStructHead}
    {metaCells bodyCells : List Cell} {result : Option CallStruct} {m : RpcStruct}
    (answers : m.Answers layout head metaCells bodyCells result) : m.Sendable layout := by
  obtain ⟨block, filled⟩ := answers
  split at filled
  · exact ⟨block, _, _, filled.2⟩
  · exact ⟨block, _, _, filled.2⟩

/-- `body()` and a write leave an answer what it is. -/
theorem RpcStruct.Answers.body {layout : IntLayout} {head : RpcStructHead}
    {metaCells bodyCells : List Cell} {result : Option CallStruct} {m : RpcStruct}
    (answers : m.Answers layout head metaCells bodyCells result) :
    ∃ again, m.body layout = .ok again ∧ (∃ frame, again.frame = .ok frame) ∧
      again.Answers layout head metaCells bodyCells result := by
  obtain ⟨block, filled⟩ := answers
  split at filled
  all_goals
    rename_i filtered
    obtain ⟨fresh, same, again⟩ := filled.2.newData
    refine ⟨_, same, ⟨_, again.frame⟩, fresh, ?_⟩
    rw [filtered]
    exact ⟨filled.1, again⟩

namespace LinkSession

/-- What replying relies on and keeps: the deque holds complete messages. -/
structure Queued (layout : IntLayout) (s : LinkSession) : Prop where
  sendable : ∀ p ∈ s.writeMsgs, (s.heap p).Sendable layout
  old : ∀ p ∈ s.writeMsgs, p < s.allocated

/-- The read loop's part of the state, which replying leaves alone. -/
structure SameReads (s next : LinkSession) : Prop where
  reading : next.reading = s.reading
  input : next.input = s.input
  handled : next.handled = s.handled
  lost : next.lost = s.lost

variable {layout : IntLayout} {callFun : Option CallbackFun} {s : LinkSession}

theorem Queued.store (queued : Queued layout s) {p : Ptr} {m : RpcStruct}
    (sendable : m.Sendable layout) : Queued layout (s.store p m) where
  sendable q member := by
    by_cases same : q = p
    · subst same
      simpa [LinkSession.store] using sendable
    · simpa [LinkSession.store, same] using queued.sendable q member
  old := queued.old

theorem Queued.alloc (queued : Queued layout s) (m : RpcStruct) : Queued layout (s.alloc m) where
  sendable q member := by
    have other : q ≠ s.allocated := Nat.ne_of_lt (queued.old q member)
    simpa [LinkSession.alloc, other] using queued.sendable q member
  old q member := Nat.lt_succ_of_lt (queued.old q member)

theorem Queued.doWrite (queued : Queued layout s) (nonempty : s.writeMsgs ≠ []) :
    ∃ front msg, front ∈ s.writeMsgs ∧ msg.Sendable layout ∧
      s.doWrite layout = some { s.store front msg with
        writing := s.writing ++ [front]
        written := s.written ++ [front] } := by
  obtain ⟨front, rest, queue⟩ := List.exists_cons_of_ne_nil nonempty
  have member : front ∈ s.writeMsgs := by simp [queue]
  obtain ⟨block, metaCells, bodyCells, filled⟩ := queued.sendable front member
  obtain ⟨fresh, same, again⟩ := filled.newData
  refine ⟨front, { s.heap front with data := some fresh }, member, ⟨_, _, _, again⟩, ?_⟩
  simp only [LinkSession.doWrite, queue, RpcStruct.body, same, again.frame, List.head?_cons,
    Option.bind_eq_bind, Option.bind_some, Except.toOption, Option.pure_def]

/-- The test for an empty deque behind `push_back` never succeeds. -/
theorem queueReply_eq (s : LinkSession) (p : Ptr) :
    s.queueReply layout p =
      { s with writeMsgs := s.writeMsgs ++ [p], replied := s.replied ++ [p] }.doWrite layout := by
  have nonempty : (s.writeMsgs ++ [p]).isEmpty = false := by simp
  simp only [LinkSession.queueReply, nonempty, if_true]

theorem Queued.queueReply (queued : Queued layout s) {p : Ptr} (old : p < s.allocated)
    (sendable : (s.heap p).Sendable layout) :
    ∃ next, s.queueReply layout p = some next ∧ Queued layout next ∧ SameReads s next ∧
      next.calls = s.calls := by
  have longer : Queued layout
      { s with writeMsgs := s.writeMsgs ++ [p], replied := s.replied ++ [p] } := by
    constructor
    · intro q member
      rcases List.mem_append.mp member with earlier | last
      · exact queued.sendable q earlier
      · rw [List.mem_singleton.mp last]
        exact sendable
    · intro q member
      rcases List.mem_append.mp member with earlier | last
      · exact queued.old q earlier
      · rw [List.mem_singleton.mp last]
        exact old
  obtain ⟨front, msg, member, complete, started⟩ := longer.doWrite (by simp)
  have stored := longer.store (p := front) complete
  exact ⟨_, (queueReply_eq s p).trans started, ⟨stored.sendable, stored.old⟩,
    ⟨rfl, rfl, rfl, rfl⟩, rfl⟩

private theorem replyMsg_eq (layout : IntLayout) (reqId : Int32) {res : CallStruct}
    (positive : 0 < res.size)
    (fits : res.size.toInt + 20 ≤ 2 ^ 31 - 1) :
    ∃ m block, replyMsg layout reqId res = .ok m ∧ m.headInfo = replyHead reqId res.size ∧
      RpcStruct.Filled layout m block (metaBytes.map some) res.data := by
  have length := res.allocated positive
  have nonneg : 0 < res.size.toInt := Int32.lt_iff_toInt_lt.mp positive
  rw [CInt.toNatClampNeg_eq] at length
  obtain ⟨headed, middle, m, block, first, second, third, head, filled⟩ :=
    RpcStruct.setMeta_setBody_eq layout (replyHead reqId res.size) res.data rfl
      (Int.le_of_lt nonneg) (by change res.size.toInt + 20 < _; omega)
      (by change res.size.toInt ≤ _; omega)
  have all : res.data.take res.size.toInt.toNat = res.data := List.take_of_length_le (by omega)
  refine ⟨m, block, ?_, head, ?_⟩
  · rw [replyHead] at first
    simp only [replyMsg, first, second, bind, Except.bind]
    exact third
  · rw [← all]
    exact filled

/-- How far `reply` gets before it queues a message: the message and the state. -/
structure ReplyReady (layout : IntLayout) (callFun : Option CallbackFun) (s : LinkSession) (p : Ptr)
    (metaCells bodyCells : List Cell) (ready : LinkSession) (q : Ptr) : Prop where
  called : s.reply layout callFun p = ready.queueReply layout q
  queued : Queued layout s → Queued layout ready
  old : q < ready.allocated
  reads : SameReads s ready
  writeMsgs : ready.writeMsgs = s.writeMsgs
  calls : ready.calls = s.calls ++ callsFor callFun bodyCells (s.heap p).headInfo.bodyLen
  message : (ready.heap q).Answers layout (s.heap p).headInfo metaCells bodyCells
    (answerTo callFun s.calls ⟨bodyCells, (s.heap p).headInfo.bodyLen⟩)
  released : ready.released = s.released ++
    releasedBy (answerTo callFun s.calls ⟨bodyCells, (s.heap p).headInfo.bodyLen⟩)
  others : ∀ r, r ≠ p → r < s.allocated → ready.heap r = s.heap r

/-- The session once the callback has been called with the request at an address. -/
def asked (s : LinkSession) (p : Ptr) (fresh : Block) (msg : List Cell) : LinkSession :=
  { (s.alloc .new).store p { s.heap p with data := some fresh } with
    calls := s.calls ++ [⟨msg, (s.heap p).headInfo.bodyLen⟩] }

variable {p : Ptr} {metaCells bodyCells : List Cell} {callback : CallbackFun}

private theorem asked_heap (s : LinkSession) (p : Ptr) (fresh : Block) (msg : List Cell) :
    (s.asked p fresh msg).heap p = { s.heap p with data := some fresh } := by
  simp [asked, LinkSession.store]

theorem asked_others (s : LinkSession) {r : Ptr} (other : r ≠ p) (known : r < s.allocated)
    (fresh : Block) (msg : List Cell) : (s.asked p fresh msg).heap r = s.heap r := by
  simp [asked, LinkSession.store, LinkSession.alloc, other, Nat.ne_of_lt known]

theorem Queued.asked {fresh : Block} (queued : Queued layout s)
    (complete : RpcStruct.Filled layout { s.heap p with data := some fresh } fresh metaCells
      bodyCells) : Queued layout (s.asked p fresh bodyCells) := by
  have stored := (queued.alloc .new).store (p := p) ⟨_, _, _, complete⟩
  exact ⟨stored.sendable, stored.old⟩

theorem alloc_heap (old : p < s.allocated) (m : RpcStruct) : (s.alloc m).heap p = s.heap p := by
  simp [LinkSession.alloc, Nat.ne_of_lt old]

private theorem reply_asked (callback : CallbackFun) (old : p < s.allocated) {block : Block}
    (filled : RpcStruct.Filled layout (s.heap p) block metaCells bodyCells) :
    ∃ fresh, RpcStruct.Filled layout { s.heap p with data := some fresh } fresh metaCells
        bodyCells ∧
      s.reply layout (some callback) p = match callback (s.asked p fresh bodyCells).calls with
        | none => (s.asked p fresh bodyCells).queueReply layout p
        | some res =>
          if 0 < res.size then do
            let built ← (replyMsg layout (s.heap p).headInfo.reqId res).toOption
            (((s.asked p fresh bodyCells).store s.allocated built).release res).queueReply layout
              s.allocated
          else ((s.asked p fresh bodyCells).release res).queueReply layout p := by
  obtain ⟨fresh, read, complete⟩ := filled.newData
  have body := complete.cells.2
  refine ⟨fresh, complete, ?_⟩
  simp only [LinkSession.reply, alloc_heap old, RpcStruct.body, read, Except.toOption,
    Option.bind_eq_bind, Option.bind_some, body]
  rfl

theorem ReplyReady.echo {fresh : Block} {released : List CallStruct} (old : p < s.allocated)
    (complete : RpcStruct.Filled layout { s.heap p with data := some fresh } fresh metaCells
      bodyCells)
    (nothing : (answerTo (some callback) s.calls ⟨bodyCells, (s.heap p).headInfo.bodyLen⟩).filter
      (fun res => 0 < res.size) = none)
    (deleted : released = s.released ++
      releasedBy (answerTo (some callback) s.calls ⟨bodyCells, (s.heap p).headInfo.bodyLen⟩))
    (called : s.reply layout (some callback) p =
      { s.asked p fresh bodyCells with released := released }.queueReply layout p) :
    ReplyReady layout (some callback) s p metaCells bodyCells
      { s.asked p fresh bodyCells with released := released } p where
  called := called
  queued queued := ⟨(queued.asked complete).sendable, (queued.asked complete).old⟩
  old := Nat.lt_succ_of_lt old
  reads := ⟨rfl, rfl, rfl, rfl⟩
  writeMsgs := rfl
  calls := rfl
  message := by
    refine ⟨fresh, ?_⟩
    rw [nothing, show LinkSession.heap _ p = _ from asked_heap s p fresh bodyCells]
    exact ⟨rfl, complete⟩
  released := deleted
  others r other known := asked_others s other known fresh bodyCells

/-- On a complete request `reply` always gets there. -/
theorem reply_ready (old : p < s.allocated) {block : Block}
    (filled : RpcStruct.Filled layout (s.heap p) block metaCells bodyCells)
    (fits : ∀ res, answerTo callFun s.calls ⟨bodyCells, (s.heap p).headInfo.bodyLen⟩ = some res →
      res.size.toInt + 20 ≤ 2 ^ 31 - 1) :
    ∃ ready q, ReplyReady layout callFun s p metaCells bodyCells ready q := by
  cases callFun with
  | none =>
    refine ⟨s.alloc .new, p, rfl, fun queued => queued.alloc .new, Nat.lt_succ_of_lt old,
      ⟨rfl, rfl, rfl, rfl⟩, rfl, (List.append_nil _).symm, ⟨block, ?_⟩, (List.append_nil _).symm,
      fun r _ known => alloc_heap known .new⟩
    rw [alloc_heap old]
    exact ⟨rfl, filled⟩
  | some callback =>
    obtain ⟨fresh, complete, reply⟩ := reply_asked callback old filled
    have answer : answerTo (some callback) s.calls ⟨bodyCells, (s.heap p).headInfo.bodyLen⟩ =
        callback (s.asked p fresh bodyCells).calls := rfl
    cases result : callback (s.asked p fresh bodyCells).calls with
    | none =>
      rw [result] at reply answer
      exact ⟨_, p, .echo old complete (by rw [answer]; rfl)
        (by rw [answer]; exact (List.append_nil _).symm) reply⟩
    | some res =>
      rw [result] at reply answer
      by_cases positive : 0 < res.size
      · obtain ⟨m, final, built, head, whole⟩ := replyMsg_eq layout (s.heap p).headInfo.reqId
          positive (fits res answer)
        have dropped : ((s.asked p fresh bodyCells).store s.allocated m).release res =
            { (s.asked p fresh bodyCells).store s.allocated m with
              released := s.released ++ releasedBy (some res) } := release_eq _ res
        refine ⟨{ (s.asked p fresh bodyCells).store s.allocated m with
            released := s.released ++ releasedBy (some res) }, s.allocated, ?_, ?_,
          Nat.lt_succ_self _, ⟨rfl, rfl, rfl, rfl⟩, rfl, rfl, ⟨final, ?_⟩, ?_, ?_⟩
        · simpa [positive, built, Except.toOption, dropped] using reply
        · intro queued
          have stored := (queued.asked complete).store (p := s.allocated) ⟨_, _, _, whole⟩
          exact ⟨stored.sendable, stored.old⟩
        · have stored : ((s.asked p fresh bodyCells).store s.allocated m).heap s.allocated = m := by
            simp [LinkSession.store]
          rw [answer, stored]
          simp only [Option.filter, positive, decide_true, if_true]
          exact ⟨head, whole⟩
        · rw [answer]
        · intro r other known
          have behind := asked_others s other known fresh bodyCells
          simpa [LinkSession.store, Nat.ne_of_lt known] using behind
      · refine ⟨_, p, .echo old complete ?_ rfl ?_⟩
        · rw [answer]
          simp [Option.filter, positive]
        · rw [reply, answer]
          simp only [positive, if_false, release_eq]
          rfl

theorem Queued.reply (queued : Queued layout s) (results : ResultsFit callFun) (block : Block)
    (old : p < s.allocated)
    (filled : RpcStruct.Filled layout (s.heap p) block metaCells bodyCells) :
    ∃ next, s.reply layout callFun p = some next ∧ Queued layout next ∧ SameReads s next ∧
      next.calls = s.calls ++ callsFor callFun bodyCells (s.heap p).headInfo.bodyLen := by
  have fits : ∀ res, answerTo callFun s.calls ⟨bodyCells, (s.heap p).headInfo.bodyLen⟩ =
      some res → res.size.toInt + 20 ≤ 2 ^ 31 - 1 := by
    intro res answered
    obtain ⟨callback, registered, result⟩ := Option.bind_eq_some_iff.mp answered
    exact results callback registered _ res result
  obtain ⟨ready, q, reached⟩ := reply_ready old filled fits
  obtain ⟨next, replied, kept, reads, calls⟩ :=
    (reached.queued queued).queueReply reached.old reached.message.sendable
  exact ⟨next, reached.called.trans replied, kept,
    ⟨reads.reading.trans reached.reads.reading, reads.input.trans reached.reads.input,
      reads.handled.trans reached.reads.handled, reads.lost.trans reached.reads.lost⟩,
    calls.trans reached.calls⟩

/-- `handle_read_msg` on a complete request: it is handled, answered, and the
next header is read. -/
theorem Queued.handleReadMsg (queued : Queued layout s) (results : ResultsFit callFun)
    (unlost : s.lost = false) (old : p < s.allocated) {block : Block}
    (filled : RpcStruct.Filled layout (s.heap p) block metaCells bodyCells) :
    ∃ next fresh, s.handleReadMsg layout callFun p = some next ∧ Queued layout next ∧
      next.lost = false ∧ next.reading = .head ∧ next.input = s.input ∧
      RpcStruct.Filled layout { s.heap p with data := some fresh } fresh metaCells bodyCells ∧
      next.handled = s.handled ++ [{ s.heap p with data := some fresh }] ∧
      next.calls = s.calls ++ callsFor callFun bodyCells (s.heap p).headInfo.bodyLen := by
  obtain ⟨fresh, body, complete⟩ := filled.newData
  have ready : Queued layout
      { s.store p { s.heap p with data := some fresh } with
        handled := s.handled ++ [{ s.heap p with data := some fresh }] } := by
    have stored := queued.store (p := p) ⟨_, _, _, complete⟩
    exact ⟨stored.sendable, stored.old⟩
  obtain ⟨next, replied, kept, reads, calls⟩ := ready.reply results fresh (p := p) old
    (by simpa [LinkSession.store] using complete)
  refine ⟨next.doRead, fresh, ?_, ⟨kept.sendable, kept.old⟩, reads.lost.trans unlost, rfl,
    reads.input, complete, reads.handled, ?_⟩
  · simp only [LinkSession.handleReadMsg, unlost, Bool.false_eq_true, if_false, RpcStruct.body,
      body, Except.toOption, Option.bind_eq_bind, Option.bind_some, replied, Option.pure_def]
  · simpa [LinkSession.store, doRead] using calls

/-- The read of a header that has arrived: the buffer for its payload is made. -/
theorem completeRead_head {h : RpcStructHead} {rest : List UInt8} {ready : RpcStruct}
    (reading : s.reading = .head) (input : s.input = h.data layout ++ rest)
    (buffer : (RpcStruct.ofHead h).recvMsgBuff layout = .ok ready) :
    s.completeRead layout callFun = some { { s with input := rest }.alloc ready with
      reading := .msg s.allocated ready.recvMsgLen } := by
  have header : s.input.take 12 = h.data layout := by simp [input]
  have behind : s.input.drop 12 = rest := by simp [input]
  have enough : 12 ≤ s.input.length := by simp [input]
  simp only [completeRead, reading, enough, if_true, header, behind, handleReadHeader,
    RpcStructHead.ofData_data, buffer, Except.toOption, Option.bind_eq_bind, Option.bind_some,
    Option.pure_def]

/-- The read of a payload that has arrived: its message is handled. -/
theorem completeRead_msg {length : Int32} {payload rest : List UInt8} {filled : RpcStruct}
    (reading : s.reading = .msg p length) (input : s.input = payload ++ rest)
    (size : length.toInt = payload.length)
    (received : (s.heap p).receive payload length = .ok filled) :
    s.completeRead layout callFun =
      { s.store p filled with input := rest }.handleReadMsg layout callFun p := by
  have count : length.toNatClampNeg = payload.length := by
    rw [CInt.toNatClampNeg_eq, size]
    exact Int.toNat_natCast _
  have enough : 0 ≤ length ∧ payload.length ≤ s.input.length := by
    rw [CInt.nonneg_iff, size]
    exact ⟨Int.natCast_nonneg _, by simp [input]⟩
  have arrived : s.input.take payload.length = payload := by simp [input]
  have behind : s.input.drop payload.length = rest := by simp [input]
  simp only [completeRead, reading, count, enough, and_self, if_true, arrived, behind, received,
    Except.toOption, Option.bind_eq_bind, Option.bind_some]

/-- A completed write touches only queued messages, and queues no new ones. -/
theorem Queued.handleWrite (queued : Queued layout s) {next : LinkSession}
    (step : s.handleWrite layout = some next) :
    Queued layout next ∧ SameReads s next ∧ next.calls = s.calls ∧ next.allocated = s.allocated ∧
      (∀ p, p ∉ s.writeMsgs → next.heap p = s.heap p) ∧ ∀ p ∈ next.writeMsgs, p ∈ s.writeMsgs := by
  unfold LinkSession.handleWrite at step
  cases queue : s.writeMsgs with
  | nil => simp [queue] at step
  | cons front rest =>
    have shorter : Queued layout { s with writeMsgs := rest } := by
      constructor
      · exact fun p member => queued.sendable p (by simp [queue, show p ∈ rest from member])
      · exact fun p member => queued.old p (by simp [queue, show p ∈ rest from member])
    simp only [queue] at step
    split at step
    · rename_i more
      obtain ⟨second, msg, member, complete, started⟩ :=
        shorter.doWrite (by rintro rfl; simp at more)
      cases started.symm.trans step
      have stored := shorter.store (p := second) complete
      refine ⟨⟨stored.sendable, stored.old⟩, ⟨rfl, rfl, rfl, rfl⟩, rfl, rfl, ?_, ?_⟩
      · intro p apart
        have other : p ≠ second := by
          rintro rfl
          exact apart (List.mem_cons_of_mem _ member)
        simp [LinkSession.store, other]
      · exact fun p member => List.mem_cons_of_mem _ member
    · cases step
      exact ⟨shorter, ⟨rfl, rfl, rfl, rfl⟩, rfl, rfl, fun _ _ => rfl,
        fun p member => List.mem_cons_of_mem _ member⟩

end LinkSession

end RpcLoop
