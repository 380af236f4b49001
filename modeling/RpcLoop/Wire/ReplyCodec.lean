import RpcLoop.Message.Receiving
import RpcLoop.Server.FrontMessage

/-! From a request frame to the reply frame. The server takes the frame with an
object built from its header and answers with a fresh message or with that
object; a client takes the answer with an entry it made before. -/

namespace RpcLoop

open Foundation

/-- A client's entry takes a whole frame: `head(h)`, `recv_msg_buff()`, `body()`. -/
def RpcStruct.takeFrame (layout : IntLayout) (entry : RpcStruct) (frame : List UInt8) :
    Except Fault RpcStruct := do
  let known ← entry.setHead layout (.ofData layout (frame.take 12))
  let ready ← known.recvMsgBuff layout
  let filled ← ready.receive (frame.drop 12) ready.recvMsgLen
  filled.body layout

/-- The frame for a callback's result: header, meta and body. A client's entry
that takes it has the id and the bytes of the result. -/
structure ResultFrame (layout : IntLayout) (reqId : Int32) (res : CallStruct) (m : RpcStruct) :
    Prop where
  frame : m.frame = .ok (((replyHead reqId res.size).data layout).map some ++
    metaBytes.map some ++ res.data)
  decoded : ∀ bytes : List UInt8, res.data = bytes.map some → ∀ entry : RpcStruct, entry.Grown →
    ∃ taken, entry.takeFrame layout
        ((replyHead reqId res.size).data layout ++ metaBytes ++ bytes) = .ok taken ∧
      taken.headInfo.reqId = reqId ∧ taken.headInfo.bodyLen = res.size ∧
      taken.cells taken.bodyOffset taken.headInfo.bodyLen = bytes.map some

/-- What `data()` over `data_len()` is of the message queued for a frame: the
frame of the result where there is one of a positive size, and otherwise the
received frame. -/
def RepliesWith (layout : IntLayout) (h : RpcStructHead) (payload : List UInt8)
    (result : Option CallStruct) (m : RpcStruct) : Prop :=
  match result.filter fun res => 0 < res.size with
  | none => m.frame = .ok ((h.data layout ++ payload).map some)
  | some res => ResultFrame layout h.reqId res m

variable {layout : IntLayout} {callFun : Option CallbackFun} {s : LinkSession} {h : RpcStructHead}
  {payload rest : List UInt8}

private theorem takeFrame_eq (layout : IntLayout) {entry : RpcStruct} (grown : entry.Grown)
    (reqId : Int32)
    {size : Int32} (positive : 0 ≤ size.toInt) (fits : size.toInt + 20 ≤ 2 ^ 31 - 1)
    {bytes : List UInt8} (length : (bytes.length : Int) = size.toInt) :
    ∃ taken, entry.takeFrame layout ((replyHead reqId size).data layout ++ metaBytes ++ bytes) =
        .ok taken ∧ taken.headInfo = replyHead reqId size ∧
      taken.cells taken.bodyOffset taken.headInfo.bodyLen = bytes.map some := by
  have eight : metaBytes.length = 8 := rfl
  obtain ⟨known, ready, filled, block, headed, buffer, _, taken, frame, complete⟩ :=
    grown.receive layout (replyHead reqId size) (metaBytes ++ bytes) rfl positive
      (by change size.toInt + 20 < _; omega)
      (by rw [List.length_append, eight]; change ((8 + bytes.length : Nat) : Int) = 8 + size.toInt
          omega)
  obtain ⟨fresh, again, whole⟩ := complete.newData
  have header : ((replyHead reqId size).data layout ++ metaBytes ++ bytes).take 12 =
      (replyHead reqId size).data layout := by
    simp [List.append_assoc]
  have behind : ((replyHead reqId size).data layout ++ metaBytes ++ bytes).drop 12 =
      metaBytes ++ bytes := by
    simp [List.append_assoc]
  refine ⟨{ filled with data := some fresh }, ?_, ?_, ?_⟩
  · rw [RpcStruct.takeFrame, header, behind, RpcStructHead.ofData_data]
    simp only [headed, buffer, taken, bind, Except.bind]
    exact again
  · rw [frame]
  · have body := whole.cells.2
    rw [show (metaBytes ++ bytes).drop 8 = bytes from rfl] at body
    exact body

theorem RpcStruct.Answers.repliesWith {result : Option CallStruct} {m : RpcStruct}
    (answers : m.Answers layout h ((payload.take h.metaLen.toInt.toNat).map some)
      ((payload.drop h.metaLen.toInt.toNat).map some) result)
    (fits : ∀ res, result = some res → res.size.toInt + 20 ≤ 2 ^ 31 - 1) :
    RepliesWith layout h payload result m := by
  obtain ⟨block, filled⟩ := answers
  unfold RepliesWith
  cases answer : result.filter fun res => 0 < res.size with
  | none =>
    simp only [answer] at filled ⊢
    have frame := filled.2.frame
    rw [filled.1, List.append_assoc, ← List.map_append, List.take_append_drop,
      ← List.map_append] at frame
    exact frame
  | some res =>
    simp only [answer] at filled ⊢
    obtain ⟨same, positive⟩ := Option.filter_eq_some_iff.mp answer
    have size : 0 < res.size := by simpa using positive
    have nonneg : 0 < res.size.toInt := Int32.lt_iff_toInt_lt.mp size
    have length := res.allocated size
    rw [CInt.toNatClampNeg_eq] at length
    constructor
    · have frame := filled.2.frame
      rw [filled.1] at frame
      exact frame
    · intro bytes data entry grown
      have count : (bytes.length : Int) = res.size.toInt := by
        rw [data, List.length_map] at length
        omega
      obtain ⟨taken, decoded, head, body⟩ := takeFrame_eq layout grown h.reqId (by omega)
        (fits res same) count
      exact ⟨taken, decoded, by rw [head]; rfl, by rw [head]; rfl, body⟩

namespace LinkSession

/-- The call a session makes for a frame. -/
def callOf (h : RpcStructHead) (payload : List UInt8) : Call where
  msg := (payload.drop h.metaLen.toInt.toNat).map some
  msgLen := h.bodyLen

/-- `handle_read_msg` with a filled object: it is handed to `reply` as it is. -/
theorem handleReadMsg_filled (callFun : Option CallbackFun) {p : Ptr} {block : Block}
    {metaCells bodyCells : List Cell}
    (filled : RpcStruct.Filled layout (s.heap p) block metaCells bodyCells)
    (unlost : s.lost = false) :
    ∃ (taken : LinkSession) (fresh : Block),
      s.handleReadMsg layout callFun p = (taken.reply layout callFun p).map doRead ∧
      RpcStruct.Filled layout (taken.heap p) fresh metaCells bodyCells ∧
      (taken.heap p).headInfo = (s.heap p).headInfo ∧ taken.allocated = s.allocated ∧
      taken.writeMsgs = s.writeMsgs ∧ taken.input = s.input ∧ taken.calls = s.calls ∧
      taken.released = s.released ∧ ∀ q, q ≠ p → taken.heap q = s.heap q := by
  obtain ⟨fresh, read, whole⟩ := filled.newData
  refine ⟨{ s.store p { s.heap p with data := some fresh } with
      handled := s.handled ++ [{ s.heap p with data := some fresh }] }, fresh, ?_, ?_, ?_,
    rfl, rfl, rfl, rfl, rfl, ?_⟩
  · simp only [handleReadMsg, unlost, Bool.false_eq_true, if_false, RpcStruct.body, read,
      Except.toOption, Option.bind_eq_bind, Option.bind_some, Option.pure_def, Option.map_eq_bind]
    rfl
  · simpa [store] using whole
  · simp [store]
  · intro q other
    simp [store, other]

/-- The state in which the two reads of a frame call `reply`: the object holds the
frame, and everything else is as before the frame. -/
structure FrameTaken (layout : IntLayout) (s : LinkSession) (h : RpcStructHead)
    (payload rest : List UInt8) (p : Ptr) (taken : LinkSession) : Prop where
  known : p < taken.allocated
  fresh : s.allocated ≤ p
  head : (taken.heap p).headInfo = h
  writeMsgs : taken.writeMsgs = s.writeMsgs
  input : taken.input = rest
  calls : taken.calls = s.calls
  released : taken.released = s.released
  others : ∀ q < s.allocated, taken.heap q = s.heap q
  filled : ∃ block, RpcStruct.Filled layout (taken.heap p) block
    ((payload.take h.metaLen.toInt.toNat).map some) ((payload.drop h.metaLen.toInt.toNat).map some)

private theorem completeRead_frame (callFun : Option CallbackFun) (unlost : s.lost = false)
    (reading : s.reading = .head)
    (input : s.input = h.data layout ++ payload ++ rest) (body : 0 ≤ h.bodyLen.toInt)
    (metaLen : 0 ≤ h.metaLen.toInt)
    (fits : 12 + h.metaLen.toInt + max h.bodyLen.toInt 2048 ≤ 2 ^ 31 - 1)
    (length : (payload.length : Int) = h.metaLen.toInt + h.bodyLen.toInt) :
    ∃ (headed taken : LinkSession) (p : Ptr),
      s.completeRead layout callFun = some headed ∧
      headed.completeRead layout callFun = (taken.reply layout callFun p).map doRead ∧
      FrameTaken layout s h payload rest p taken := by
  obtain ⟨ready, filled, block, buffer, size, copied, head, complete⟩ :=
    RpcStruct.receive_eq layout h payload metaLen body (by omega) length
  have first : s.completeRead layout callFun = some
      { { s with input := payload ++ rest }.alloc ready with
        reading := .msg s.allocated ready.recvMsgLen } :=
    completeRead_head reading (input.trans (List.append_assoc _ _ _)) buffer
  generalize made : ({ { s with input := payload ++ rest }.alloc ready with
      reading := .msg s.allocated ready.recvMsgLen } : LinkSession) = headed at first
  have stored : headed.heap s.allocated = ready := by simp [← made, alloc]
  have second : headed.completeRead layout callFun =
      { headed.store s.allocated filled with input := rest }.handleReadMsg layout callFun
        s.allocated := by
    rw [← made] at stored ⊢
    exact completeRead_msg rfl rfl size (by rw [stored, copied])
  have refilled : { headed.store s.allocated filled with input := rest }.heap s.allocated =
      filled := by simp [store]
  rw [← refilled] at complete head
  cases made
  obtain ⟨taken, fresh, handled, whole, same, allocated, writeMsgs, unread, calls, released,
    others⟩ := handleReadMsg_filled callFun complete unlost
  refine ⟨_, taken, s.allocated, first, second.trans handled, ?_⟩
  refine ⟨?_, Nat.le_refl _, same.trans head, writeMsgs, unread, calls, released, ?_, fresh, whole⟩
  · rw [allocated]
    exact Nat.lt_succ_self _
  · intro q old
    rw [others q (Nat.ne_of_lt old)]
    simp [store, alloc, Nat.ne_of_lt old]

/-- The two reads of a frame as the codec promises them: both handlers return, one
message with the promised frame is queued behind the others, the next header is
read behind the frame, and `reply` has deleted only memory it had allocated. -/
def RepliesTo (layout : IntLayout) (callFun : Option CallbackFun) (s : LinkSession)
    (h : RpcStructHead) (payload rest : List UInt8) : Prop :=
  ∃ (headed final : LinkSession) (newMsg : Ptr) (dropped : List CallStruct),
    s.completeRead layout callFun = some headed ∧
    headed.completeRead layout callFun = some final ∧
    final.writeMsgs = s.writeMsgs ++ [newMsg] ∧
    RepliesWith layout h payload (answerTo callFun s.calls (callOf h payload))
      (final.heap newMsg) ∧
    final.reading = .head ∧ final.input = rest ∧
    final.released = s.released ++ dropped ∧ ∀ res ∈ dropped, 0 < res.size

private theorem replied_of_reaches (reached : (machine layout callFun).Reaches start s)
    (reading : s.reading = .head)
    (input : s.input = h.data layout ++ payload ++ rest) (body : 0 ≤ h.bodyLen.toInt)
    (metaLen : 0 ≤ h.metaLen.toInt)
    (fits : 12 + h.metaLen.toInt + max h.bodyLen.toInt 2048 ≤ 2 ^ 31 - 1)
    (length : (payload.length : Int) = h.metaLen.toInt + h.bodyLen.toInt)
    (resultFits : ∀ res, answerTo callFun s.calls (callOf h payload) = some res →
      res.size.toInt + 20 ≤ 2 ^ 31 - 1) :
    ∃ (headed final : LinkSession) (newMsg : Ptr), s.completeRead layout callFun = some headed ∧
      headed.completeRead layout callFun = some final ∧
      final.writeMsgs = s.writeMsgs ++ [newMsg] ∧
      RepliesWith layout h payload (answerTo callFun s.calls (callOf h payload))
        (final.heap newMsg) ∧
      final.reading = .head ∧ final.input = rest ∧
      final.released = s.released ++ releasedBy (answerTo callFun s.calls (callOf h payload)) := by
  have written := frontWritten_of_reaches reached
  obtain ⟨headed, taken, p, first, second, frame⟩ := completeRead_frame callFun
    (unlost_of_reaches reached) reading input body metaLen fits length
  obtain ⟨block, filled⟩ := frame.filled
  have answer : answerTo callFun taken.calls
      ⟨(payload.drop h.metaLen.toInt.toNat).map some, (taken.heap p).headInfo.bodyLen⟩ =
        answerTo callFun s.calls (callOf h payload) := by
    rw [frame.calls, frame.head]
    rfl
  obtain ⟨ready, newMsg, reached⟩ :=
    reply_ready frame.known filled (by rw [answer]; exact resultFits)
  have queue := reached.writeMsgs.trans frame.writeMsgs
  have front : Front layout ready := by
    intro q head
    rw [queue] at head
    have old := written.old q (List.mem_of_mem_head? head)
    have before : q < p := Nat.lt_of_lt_of_le old frame.fresh
    rw [reached.others q (Nat.ne_of_lt before) (Nat.lt_trans before frame.known),
      frame.others q old]
    exact written.front q head
  obtain ⟨final, queued, longer, answers, unread, released⟩ := front.queueReply reached.message
  rw [answer, frame.head] at answers
  refine ⟨headed, final.doRead, newMsg, first, ?_, ?_, answers.repliesWith resultFits, rfl,
    (unread.trans reached.reads.input).trans frame.input, ?_⟩
  · rw [second, reached.called, queued, Option.map_some]
  · rw [← queue]
    exact longer
  · have deleted := reached.released
    rw [answer, frame.released] at deleted
    exact released.trans deleted

/-- The results a frame is answered from, where the codec keeps its promise. -/
def Allocated (result : Option CallStruct) : Prop :=
  ∀ res, result = some res → 0 < res.size ∨ res.kept = true

private theorem releasedBy_allocated {result : Option CallStruct} :
    (∀ res ∈ releasedBy result, 0 < res.size) ↔ Allocated result := by
  constructor
  · rintro positive res rfl
    cases owner : res.kept with
    | true => exact .inr rfl
    | false => exact .inl (positive res (by simp [releasedBy, Option.filter, owner]))
  · intro allocated res member
    obtain ⟨answered, last⟩ := Option.filter_eq_some_iff.mp (Option.mem_toList.mp member)
    have owner : res.kept = false := by simpa using last
    rcases allocated res answered with positive | kept
    · exact positive
    · rw [owner] at kept
      cases kept

/-- The server's reply codec. Whatever has happened before, a frame is answered as
the codec promises exactly when the callback's result for it has a positive size
or is kept by the callback. -/
theorem repliesTo_iff_allocated (reached : (machine layout callFun).Reaches start s)
    (reading : s.reading = .head)
    (input : s.input = h.data layout ++ payload ++ rest) (body : 0 ≤ h.bodyLen.toInt)
    (metaLen : 0 ≤ h.metaLen.toInt)
    (fits : 12 + h.metaLen.toInt + max h.bodyLen.toInt 2048 ≤ 2 ^ 31 - 1)
    (length : (payload.length : Int) = h.metaLen.toInt + h.bodyLen.toInt)
    (resultFits : ∀ res, answerTo callFun s.calls (callOf h payload) = some res →
      res.size.toInt + 20 ≤ 2 ^ 31 - 1) :
    RepliesTo layout callFun s h payload rest ↔
      Allocated (answerTo callFun s.calls (callOf h payload)) := by
  obtain ⟨headed, final, newMsg, first, second, queue, frame, again, unread, released⟩ :=
    replied_of_reaches reached reading input body metaLen fits length resultFits
  rw [← releasedBy_allocated]
  constructor
  · rintro ⟨_, _, _, dropped, one, two, _, _, _, _, deleted, positive⟩
    cases one.symm.trans first
    cases two.symm.trans second
    rwa [← List.append_cancel_left (deleted.symm.trans released)]
  · exact fun positive =>
      ⟨headed, final, newMsg, _, first, second, queue, frame, again, unread, released, positive⟩

/-- A callback that answers every request with one byte. -/
def answerNine : CallbackFun := fun _ =>
  some { size := 1, data := [some 9], allocated := fun _ => rfl }

/-- A frame with three meta bytes and one body byte. -/
def shortMeta : RpcStructHead where
  head := { reqId := 5, bodySize := 1, metaSize := 3 }

/-- A session to which that frame has been sent. -/
def shortMetaSent : LinkSession :=
  { start with input := shortMeta.data .littleEndian ++ [1, 2, 3, 7] ++ [] }

theorem shortMeta_repliesTo :
    RepliesTo .littleEndian (some answerNine) shortMetaSent shortMeta [1, 2, 3, 7] [] := by
  have reached : (machine .littleEndian (some answerNine)).Reaches start shortMetaSent :=
    ⟨[.arrive (shortMeta.data .littleEndian ++ [1, 2, 3, 7] ++ [])], rfl⟩
  refine (repliesTo_iff_allocated reached rfl rfl (by decide) (by decide) (by decide) (by decide)
    ?_).mpr ?_
  · intro res answered
    cases answered
    decide
  · intro res answered
    cases answered
    exact .inl (by decide)

/-- A callback that answers with `new CallStruct(0)` and keeps no owner of it. -/
def answerNothing : CallbackFun := fun _ =>
  some { size := 0, data := [], allocated := fun positive => by cases positive }

/-- `reply` deletes the pointer that `CallStruct(0)` has never set. -/
theorem answerNothing_deletesUnset :
    ¬ RepliesTo .littleEndian (some answerNothing) shortMetaSent shortMeta [1, 2, 3, 7] [] := by
  rintro ⟨headed, final, newMsg, dropped, first, second, _, _, _, _, deleted, positive⟩
  have outcome : ((shortMetaSent.completeRead .littleEndian (some answerNothing)).bind
      (completeRead .littleEndian (some answerNothing))).map
        (fun final => final.released.map CallStruct.size) = some [0] := by
    decide +kernel
  rw [first, Option.bind_some, second, Option.map_some, deleted] at outcome
  have sizes : dropped.map CallStruct.size = [0] := Option.some.inj outcome
  have nothing : (0 : Int32) ∈ dropped.map CallStruct.size := by simp [sizes]
  obtain ⟨res, member, size⟩ := List.mem_map.mp nothing
  have more := positive res member
  rw [size] at more
  exact Int32.lt_irrefl more

end LinkSession

end RpcLoop
