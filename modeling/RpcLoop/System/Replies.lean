import RpcLoop.System.Requests
import RpcLoop.Wire.ReplyCodec

/-! The way of a reply from the callback to the bytes on their way back. In lock
step the session queues one reply at a time, so what it has sent is always a
beginning of the frames of its replies. -/

namespace RpcLoop

open Foundation

private theorem shown_append (memory : Nat → UInt8) (first second : List Cell) :
    shown memory (first ++ second) =
      shown memory first ++ shown (fun index => memory (index + first.length)) second := by
  simp [shown, List.mapIdx_append]

/-- The calls that some requests make of the registered callback. -/
def callsOf (callFun : Option CallbackFun) (requests : List Request) : List Call :=
  requests.flatMap fun r => callsFor callFun (r.body.map some) r.bodyLen

/-- The reply to a request that was executed behind others: the callback's result
where there is one of a positive size, and otherwise the request itself. -/
structure Reply.Answers (callFun : Option CallbackFun) (earlier : List Request) (r : Request)
    (reply : Reply) : Prop where
  reqId : reply.reqId = r.reqId
  metaPart : reply.metaPart = metaBytes
  body : match (answerTo callFun (callsOf callFun earlier) ⟨r.body.map some, r.bodyLen⟩).filter
      fun res => 0 < res.size with
    | none => reply.body = r.body
    | some res => ∃ memory, reply.body = shown memory res.data

theorem RpcStruct.Answers.reply {layout : IntLayout} {callFun : Option CallbackFun}
    {earlier : List Request} {r : Request} {m : RpcStruct} (results : ResultsSound callFun)
    (answers : m.Answers layout r.head (metaBytes.map some) (r.body.map some)
      (answerTo callFun (callsOf callFun earlier) ⟨r.body.map some, r.bodyLen⟩))
    (memory : Nat → UInt8) :
    ∃ cells reply, m.frame = .ok cells ∧ shown memory cells = Reply.frame layout reply ∧
      reply.Answers callFun earlier r := by
  obtain ⟨block, filled⟩ := answers
  cases answer : (answerTo callFun (callsOf callFun earlier)
      ⟨r.body.map some, r.bodyLen⟩).filter fun res => 0 < res.size with
  | none =>
    simp only [answer] at filled
    have frame := filled.2.frame
    rw [filled.1, List.append_assoc, ← List.map_append, ← List.map_append] at frame
    refine ⟨_, ⟨r.reqId, metaBytes, r.body, rfl, r.fits⟩, frame, shown_map_some memory _, rfl, rfl,
      ?_⟩
    rw [answer]
  | some res =>
    simp only [answer] at filled
    obtain ⟨same, positive⟩ := Option.filter_eq_some_iff.mp answer
    have size : 0 < res.size := by simpa using positive
    have nonneg : 0 < res.size.toInt := Int32.lt_iff_toInt_lt.mp size
    have length := res.allocated size
    rw [CInt.toNatClampNeg_eq] at length
    have fits : res.size.toInt + 20 ≤ 2 ^ 31 - 1 := by
      obtain ⟨callback, registered, result⟩ := Option.bind_eq_some_iff.mp same
      exact results.fit callback registered _ res result
    have count : Int32.ofNat res.data.length = res.size := by
      apply Int32.toInt_inj.mp
      rw [Int32.toInt_ofNat_of_lt (by omega), length]
      omega
    have frame := filled.2.frame
    rw [filled.1, ← List.map_append] at frame
    refine ⟨_, ⟨r.reqId, metaBytes, shown (fun index => memory (index + 20)) res.data, rfl,
      by rw [length_shown]; omega⟩, frame, ?_, rfl, rfl, ?_⟩
    · rw [shown_append, shown_map_some]
      simp only [Reply.frame, Reply.payload, Reply.head, length_shown, count, List.append_assoc,
        List.length_map, List.length_append, RpcStructHead.length_data, metaBytes,
        List.length_cons, List.length_nil]
      rfl
    · rw [answer]
      exact ⟨_, rfl⟩

namespace LinkSession

variable {layout : IntLayout} {callFun : Option CallbackFun} {s next : LinkSession}
  {arrived : List UInt8} {reads : Nat} {done left : List Request} {r : Request}

private theorem completeRead_of_head (reading : s.reading = .head)
    (taken : s.completeRead layout callFun = some next) :
    ∃ ready length, next = { { s with input := s.input.drop 12 }.alloc ready with
      reading := .msg s.allocated length } := by
  simp only [completeRead, reading] at taken
  split at taken
  · simp only [handleReadHeader, Option.bind_eq_bind, Option.bind_eq_some_iff,
      Option.pure_def] at taken
    obtain ⟨ready, _, same⟩ := taken
    cases same
    exact ⟨ready, _, rfl⟩
  · cases taken

theorem Decoding.available (decoding : Decoding layout callFun arrived reads s done (some r))
    (sent : arrived <+: ((done ++ [r] ++ left).map (Request.frame layout)).flatten)
    (taken : s.completeRead layout callFun = some next) : r.payload <+: s.input := by
  have unread := decoding.unread sent
  have phase := decoding.phase
  cases phase with
  | stopped _ reading => simp [completeRead, reading] at taken
  | msg _ p reading old apart buffer =>
  obtain ⟨ready, _, _, same, size, _⟩ := r.readBuf_eq layout
  cases buffer.symm.trans same
  have count : (s.heap p).recvMsgLen.toNatClampNeg = r.payload.length := by
    rw [CInt.toNatClampNeg_eq]
    omega
  have long : r.payload.length ≤ s.input.length := by
    apply Classical.byContradiction
    intro short
    simp [completeRead, reading, count, short] at taken
  apply List.prefix_of_prefix_length_le _ unread long
  simp

theorem Decoding.answers (decoding : Decoding layout callFun arrived reads s done (some r))
    (results : ResultsSound callFun) (empty : s.writeMsgs = []) (available : r.payload <+: s.input)
    (taken : s.completeRead layout callFun = some next) :
    ∃ p, next.writeMsgs = [p] ∧ (next.heap p).Answers layout r.head (metaBytes.map some)
      (r.body.map some) (answerTo callFun s.calls ⟨r.body.map some, r.bodyLen⟩) := by
  obtain ⟨rest, input⟩ := available
  have phase := decoding.phase
  cases phase with
  | stopped _ reading => simp [completeRead, reading] at taken
  | msg _ p reading old apart buffer =>
  obtain ⟨ready, filledMsg, block, same, length, received, head, filled⟩ := r.readBuf_eq layout
  cases buffer.symm.trans same
  have stored : ({ s.store p filledMsg with input := rest } : LinkSession).heap p = filledMsg := by
    simp [store]
  rw [completeRead_msg reading input.symm length received] at taken
  rw [← stored] at filled head
  obtain ⟨handled, fresh, reply, whole, kept, allocated, writeMsgs, _, calls, _⟩ :=
    handleReadMsg_filled callFun filled decoding.unlost
  have known : (handled.heap p).headInfo = r.head := kept.trans head
  have before : handled.calls = s.calls := calls
  have fits : ∀ res, answerTo callFun handled.calls
      ⟨r.body.map some, (handled.heap p).headInfo.bodyLen⟩ = some res →
        res.size.toInt + 20 ≤ 2 ^ 31 - 1 := by
    intro res answered
    obtain ⟨callback, registered, result⟩ := Option.bind_eq_some_iff.mp answered
    exact results.fit callback registered _ res result
  obtain ⟨ready, q, reached⟩ := reply_ready (by rw [allocated]; exact old) whole fits
  have message := reached.message
  have size : r.head.bodyLen = r.bodyLen := rfl
  rw [known, before, size] at message
  obtain ⟨again, body, ⟨cells, frame⟩, answers⟩ := message.body
  have alone : ready.writeMsgs = [] := (reached.writeMsgs.trans writeMsgs).trans empty
  rw [reply, reached.called, queueReply_eq] at taken
  simp only [LinkSession.doWrite, alone, List.nil_append, List.head?_cons, body, frame,
    Except.toOption, Option.bind_eq_bind, Option.bind_some, Option.pure_def,
    Option.map_some] at taken
  cases taken
  refine ⟨q, by simp [store, doRead], ?_⟩
  simpa [store, doRead] using answers

private theorem writing_of_request {p q : Ptr} {length : Int32}
    (stepped : (machine layout callFun).step s .readOk = some next)
    (reading : s.reading = .msg p length) (empty : s.writeMsgs = [])
    (queue : next.writeMsgs = [q]) :
    next.writing = s.writing ++ [q] := by
  cases transition_of_step stepped with
  | header found => cases found.symm.trans reading
  | request p length found queued front which first heap input handled calls released =>
    simp only [empty, List.nil_append, List.head?_cons, Option.some.injEq, List.cons.injEq,
      and_true] at first queue
    rw [← first, queue]

/-- How many requests have been read follows from the number of reads. -/
theorem Decodes.parts {requests : List Request}
    (decodes : Decodes layout callFun requests arrived reads s) :
    reads / 2 ≤ requests.length ∧ ∃ current left,
      requests = requests.take (reads / 2) ++ current.toList ++ left ∧
      Decoding layout callFun arrived reads s (requests.take (reads / 2)) current := by
  obtain ⟨done, current, left, rfl, decoding⟩ := decodes
  have total := decoding.reads
  have short : current.toList.length ≤ 1 := by cases current <;> simp
  have count : done.length = reads / 2 := by omega
  have first : (done ++ current.toList ++ left).take (reads / 2) = done := by
    rw [← count, List.append_assoc, List.take_left]
  refine ⟨?_, current, left, ?_, ?_⟩
  · rw [← count]
    simp
  · rw [first]
  · rw [first]
    exact decoding

end LinkSession

/-- Each reply is the answer to the request of its place. -/
structure AnsweredInOrder (callFun : Option CallbackFun) (done : List Request)
    (replies : List Reply) : Prop where
  length : replies.length = done.length
  each : ∀ number r (reply : Reply), done[number]? = some r → replies[number]? = some reply →
    reply.Answers callFun (done.take number) r

theorem AnsweredInOrder.concat {callFun : Option CallbackFun} {done : List Request}
    {replies : List Reply} (answered : AnsweredInOrder callFun done replies) {r : Request}
    {reply : Reply} (answers : reply.Answers callFun done r) :
    AnsweredInOrder callFun (done ++ [r]) (replies ++ [reply]) where
  length := by simp [answered.length]
  each number other said found there := by
    rcases Nat.lt_trichotomy number done.length with before | last | beyond
    · rw [List.getElem?_append_left before] at found
      rw [List.getElem?_append_left (by rwa [answered.length])] at there
      rw [List.take_append_of_le_length (Nat.le_of_lt before)]
      exact answered.each number other said found there
    · subst last
      rw [List.getElem?_concat_length] at found
      rw [← answered.length, List.getElem?_concat_length] at there
      cases found
      cases there
      rw [List.take_left]
      exact answers
    · rw [List.getElem?_eq_none (by rwa [List.length_append, List.length_singleton])] at found
      cases found

namespace RpcSystem

variable {layout : IntLayout} {callFun : Option CallbackFun} {memory : Memory}
  {requests : List Asked} {reads : Nat} {replies : List Reply} {sent : List UInt8}
  {s next : RpcSystem} {event : Event}

/-- The replies a session has queued and the bytes it has sent of them: every
reply whole, or the last one in part. -/
inductive Returning (layout : IntLayout) (memory : Memory) (s : RpcSystem) :
    List Reply → List UInt8 → Prop where
  | idle (replies : List Reply) (queue : s.session.writeMsgs = [])
      (writing : s.session.writing = []) (progress : s.progress = []) :
      Returning layout memory s replies (replies.flatMap (Reply.frame layout))
  | busy (earlier : List Reply) (reply : Reply) (p : Ptr) (cells : List Cell) (count : Nat)
      (queue : s.session.writeMsgs = [p]) (writing : s.session.writing = [p])
      (progress : s.progress = [count]) (old : p < s.session.allocated)
      (frame : (s.session.heap p).frame = .ok cells)
      (shows : shown (memory.unset p) cells = reply.frame layout)
      (inside : count ≤ (reply.frame layout).length) :
      Returning layout memory s (earlier ++ [reply])
        (earlier.flatMap (Reply.frame layout) ++ (reply.frame layout).take count)

/-- What neither queues, nor writes, nor changes what is queued. -/
theorem Returning.same (returning : Returning layout memory s replies sent)
    (queue : next.session.writeMsgs = s.session.writeMsgs)
    (writing : next.session.writing = s.session.writing) (progress : next.progress = s.progress)
    (allocated : s.session.allocated ≤ next.session.allocated)
    (heap : ∀ p, p < s.session.allocated → next.session.heap p = s.session.heap p) :
    Returning layout memory next replies sent := by
  cases returning with
  | idle replies empty none still =>
    exact .idle replies (queue.trans empty) (writing.trans none) (progress.trans still)
  | busy earlier reply p cells count own active stands old frame shows inside =>
    refine .busy earlier reply p cells count (queue.trans own) (writing.trans active)
      (progress.trans stands) (Nat.lt_of_lt_of_le old allocated) ?_ shows inside
    rw [heap p old]
    exact frame

theorem Returning.counted (returning : Returning layout memory s replies sent) :
    s.progress.length = s.session.writing.length := by
  cases returning with
  | idle replies queue writing progress => simp [writing, progress]
  | busy earlier reply p cells count queue writing progress => simp [writing, progress]

theorem Returning.piece (returning : Returning layout memory s replies sent)
    {index count done : Nat} {bytes : List UInt8} (sends : s.replyBytes memory index = some bytes)
    (stands : s.progress[index]? = some done) (inside : done + count ≤ bytes.length) :
    Returning layout memory { s with
      progress := s.progress.set index (done + count)
      toClient := s.toClient ++ (bytes.drop done).take count } replies
        (sent ++ (bytes.drop done).take count) := by
  cases returning with
  | idle replies queue writing progress => simp [progress] at stands
  | busy earlier reply p cells before queue writing progress old frame shows within =>
    have zero : index = 0 := by
      have bound := (List.getElem?_eq_some_iff.mp stands).1
      rw [progress, List.length_singleton] at bound
      omega
    subst zero
    have same : done = before := by simpa [progress] using stands.symm
    subst same
    have whole : bytes = reply.frame layout := by
      simp only [replyBytes, writing, List.getElem?_cons_zero, frame, Except.toOption, queue,
        List.mem_singleton, if_true, Option.bind_eq_bind, Option.bind_some, Option.pure_def,
        Option.some.injEq] at sends
      rw [← sends, shows]
    subst whole
    rw [List.append_assoc, ← List.take_add]
    refine .busy earlier reply p cells (done + count) queue writing ?_ old frame shows inside
    simp [progress]

theorem Returning.written (returning : Returning layout memory s replies sent) {index : Nat}
    {bytes : List UInt8} {session : LinkSession} (sends : s.replyBytes memory index = some bytes)
    (all : s.progress[index]? = some bytes.length)
    (transition : LinkSession.Transition s.session (.writeOk index) session) :
    Returning layout memory (s.withSession session (s.progress.eraseIdx index)) replies sent := by
  cases returning with
  | idle replies queue writing progress => simp [progress] at all
  | busy earlier reply p cells count queue writing progress old frame shows within =>
    cases transition with
    | written index inside front rest split heap =>
    have zero : index = 0 := by
      rw [writing, List.length_singleton] at inside
      omega
    subst zero
    have whole : bytes = reply.frame layout := by
      simp only [replyBytes, writing, List.getElem?_cons_zero, frame, Except.toOption, queue,
        List.mem_singleton, if_true, Option.bind_eq_bind, Option.bind_some, Option.pure_def,
        Option.some.injEq] at sends
      rw [← sends, shows]
    subst whole
    have complete : count = (reply.frame layout).length := by simpa [progress] using all
    rw [queue] at split
    cases split
    have sum : earlier.flatMap (Reply.frame layout) ++ (reply.frame layout).take count =
        (earlier ++ [reply]).flatMap (Reply.frame layout) := by
      rw [complete, List.take_length, List.flatMap_append, List.flatMap_singleton]
    rw [sum]
    refine .idle _ rfl ?_ ?_
    · simp [withSession, writing]
    · simp [withSession, writing, progress]

/-- The serving side with its replies. -/
structure Answering (layout : IntLayout) (callFun : Option CallbackFun)
    (memory : Memory) (requests : List Asked) (reads : Nat) (replies : List Reply)
    (sent : List UInt8) (s : RpcSystem) : Prop where
  serving : Serving layout callFun requests reads s
  answered : AnsweredInOrder callFun ((requests.map Asked.request).take (reads / 2)) replies
  returning : Returning layout memory s replies sent

theorem Answering.initial (layout : IntLayout) (callFun : Option CallbackFun)
    (memory : Memory) (csq : ClientSendQueue) :
    Answering layout callFun memory [] 0 [] [] (start csq) where
  serving := .initial layout callFun csq
  answered := ⟨rfl, fun _ _ _ found => by cases found⟩
  returning := .idle [] rfl rfl rfl

/-- Requests behind those already read change nothing about the replies. -/
theorem Answering.take (answering : Answering layout callFun memory requests reads replies sent s)
    (more : List Asked) : ((requests ++ more).map Asked.request).take (reads / 2) =
      (requests.map Asked.request).take (reads / 2) := by
  obtain ⟨_, _, _, decodes⟩ := answering.serving.received.decodes
  rw [List.map_append, List.take_append_of_le_length decodes.parts.1]

/-- A step that brings no reply. -/
theorem Answering.keep {more : List Asked} {later : Nat} {bytes : List UInt8}
    (answering : Answering layout callFun memory requests reads replies sent s)
    (serving : Serving layout callFun (requests ++ more) later next)
    (count : later / 2 = reads / 2)
    (returning : Returning layout memory next replies (sent ++ bytes)) :
    Answering layout callFun memory (requests ++ more) later replies (sent ++ bytes) next where
  serving := serving
  answered := by
    rw [count, answering.take more]
    exact answering.answered
  returning := returning

theorem Answering.quiet {more : List Asked}
    (answering : Answering layout callFun memory requests reads replies sent s)
    (serving : Serving layout callFun (requests ++ more) reads next)
    (returning : Returning layout memory next replies sent) :
    Answering layout callFun memory (requests ++ more) reads replies (sent ++ []) next :=
  answering.keep serving rfl (by rwa [List.append_nil])

theorem Answering.read (answering : Answering layout callFun memory requests reads replies sent s)
    (results : ResultsSound callFun) {session : LinkSession}
    (stepped : (LinkSession.machine layout callFun).step s.session .readOk = some session)
    (guarded : LinkSession.LockStep s.session .readOk session) {new : List Asked}
    (serving : Serving layout callFun (requests ++ new) (reads + 1)
      (s.withSession session s.progress)) :
    ∃ more, Answering layout callFun memory (requests ++ new) (reads + 1) (replies ++ more) sent
      (s.withSession session s.progress) := by
  obtain ⟨bytes, arrived, _, decodes⟩ := answering.serving.received.decodes
  have begun := answering.serving.received.begun arrived
  obtain ⟨_, current, left, split, decoding⟩ := decodes.parts
  have total := decoding.reads
  have taken : s.session.completeRead layout callFun = some session := stepped
  have counted := answering.returning.counted
  cases current with
  | none =>
    have even : (reads + 1) / 2 = reads / 2 := by
      simp only [Option.toList_none, List.length_nil] at total
      omega
    have phase := decoding.phase
    cases phase with
    | stopped _ reading => simp [LinkSession.completeRead, reading] at taken
    | head reading =>
    obtain ⟨ready, length, rfl⟩ := LinkSession.completeRead_of_head reading taken
    refine ⟨[], serving, ?_, ?_⟩
    · rw [even, List.append_nil, answering.take new]
      exact answering.answered
    · rw [List.append_nil]
      refine answering.returning.same rfl rfl ?_ (Nat.le_succ _) ?_
      · simp [withSession, counted, LinkSession.alloc]
      · intro p old
        simp [withSession, LinkSession.alloc, Nat.ne_of_lt old]
  | some r =>
    have reading : ∃ p length, s.session.reading = .msg p length := by
      have phase := decoding.phase
      cases phase with
      | stopped _ reading => simp [LinkSession.completeRead, reading] at taken
      | msg _ p reading old apart buffer => exact ⟨p, _, reading⟩
    obtain ⟨p, length, reading⟩ := reading
    have empty := guarded rfl p length reading
    have odd : (reads + 1) / 2 = reads / 2 + 1 := by
      simp only [Option.toList_some, List.length_singleton] at total
      omega
    have size : ((requests.map Asked.request).take (reads / 2)).length = reads / 2 := by
      simp only [Option.toList_some, List.length_singleton] at total
      omega
    have next : ((requests ++ new).map Asked.request).take ((reads + 1) / 2) =
        (requests.map Asked.request).take (reads / 2) ++ [r] := by
      rw [odd, List.map_append]
      conv_lhs => rw [split, List.append_assoc]
      exact List.take_left' (by rw [List.length_append, size, Option.toList_some,
        List.length_singleton])
    rw [split] at begun
    have available := decoding.available begun taken
    obtain ⟨q, queue, answers⟩ := decoding.answers results empty available taken
    rw [decoding.calls] at answers
    obtain ⟨cells, reply, frame, shows, right⟩ := answers.reply results (memory.unset q)
    refine ⟨[reply], serving, ?_, ?_⟩
    · rw [next]
      exact answering.answered.concat right
    · cases answering.returning with
      | busy earlier last other _ _ own => cases own.symm.trans empty
      | idle replies _ none still =>
      have writing : session.writing = [q] := by
        rw [LinkSession.writing_of_request stepped reading empty queue, none, List.nil_append]
      have old : q < session.allocated := by
        obtain ⟨_, _, _, after⟩ := serving.received.decodes
        obtain ⟨_, _, _, _, later⟩ := after.parts
        exact later.queued.old q (by rw [withSession, queue]; exact List.mem_cons_self)
      have busy := Returning.busy (s := s.withSession session s.progress) replies reply q cells 0
        queue writing (by simp [withSession, writing, still]) old frame shows (Nat.zero_le _)
      simpa using busy

theorem LockStep.keepsFrames (guarded : LockStep s event next) : KeepsFrames s event next := by
  cases event with
  | session inner => trivial
  | ret caller => exact guarded.1
  | _ => exact guarded

/-- What a step adds to the replies and to the bytes sent of them. -/
theorem Answering.step (answering : Answering layout callFun memory requests reads replies sent s)
    (results : ResultsSound callFun) (transition : Transition layout callFun memory s event next)
    (guarded : LockStep s event next) :
    ∃ new reads' more bytes, Answering layout callFun memory (requests ++ new) reads'
        (replies ++ more) (sent ++ bytes) next ∧
      (∀ index, event = .receive index → bytes = []) ∧
      ((∀ index, event ≠ .receive index) → next.toClient = s.toClient ++ bytes) := by
  obtain ⟨new, serving⟩ := answering.serving.step results transition guarded.keepsFrames
  have returning := answering.returning
  cases transition with
  | wrote request client id stepped =>
    refine ⟨new, reads, [], [], ?_, fun _ _ => rfl, fun _ => (List.append_nil _).symm⟩
    rw [List.append_nil]
    exact answering.quiet serving (returning.same rfl rfl rfl (Nat.le_refl _) fun _ _ => rfl)
  | left caller client stepped =>
    refine ⟨new, reads, [], [], ?_, fun _ _ => rfl, fun _ => (List.append_nil _).symm⟩
    rw [List.append_nil]
    exact answering.quiet serving (returning.same rfl rfl rfl (Nat.le_refl _) fun _ _ => rfl)
  | moved inner client allowed stepped =>
    refine ⟨new, reads, [], [], ?_, fun _ _ => rfl, fun _ => (List.append_nil _).symm⟩
    rw [List.append_nil]
    exact answering.quiet serving (returning.same rfl rfl rfl (Nat.le_refl _) fun _ _ => rfl)
  | requestSent index count client stepped =>
    refine ⟨new, reads, [], [], ?_, fun _ _ => rfl, fun _ => (List.append_nil _).symm⟩
    rw [List.append_nil]
    exact answering.quiet serving (returning.same rfl rfl rfl (Nat.le_refl _) fun _ _ => rfl)
  | arrived count bytes session found stepped =>
    refine ⟨new, reads, [], [], ?_, fun _ _ => rfl, fun _ => (List.append_nil _).symm⟩
    cases stepped
    rw [List.append_nil]
    exact answering.quiet serving (returning.same rfl rfl rfl (Nat.le_refl _) fun _ _ => rfl)
  | read session stepped =>
    obtain ⟨more, later⟩ := answering.read results stepped guarded serving
    refine ⟨new, reads + 1, more, [], ?_, fun _ _ => rfl,
      fun _ => (List.append_nil _).symm⟩
    rw [List.append_nil]
    exact later
  | written index bytes session sends all stepped =>
    refine ⟨new, reads, [], [], ?_, fun _ _ => rfl, fun _ => (List.append_nil _).symm⟩
    rw [List.append_nil]
    exact answering.quiet serving
      (returning.written sends all (LinkSession.transition_of_step stepped))
  | replySent index count done bytes sends stands positive inside =>
    refine ⟨new, reads, [], (bytes.drop done).take count, ?_,
      fun _ other => (by cases other), fun _ => rfl⟩
    rw [List.append_nil]
    exact answering.keep serving rfl (returning.piece sends stands inside)
  | received index op client start enough stepped =>
    refine ⟨new, reads, [], [], ?_, fun _ _ => rfl,
      fun other => absurd rfl (other index)⟩
    rw [List.append_nil]
    exact answering.quiet serving (returning.same rfl rfl rfl (Nat.le_refl _) fun _ _ => rfl)

end RpcSystem

end RpcLoop
