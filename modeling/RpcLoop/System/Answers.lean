import RpcLoop.System.ReadLoop

/-! The end of a reply's way. The client takes the frames of the session's replies
one after the other, so an entry with an answer has the answer to the request
that was written under its id. -/

namespace RpcLoop

open Foundation Asio Shared

theorem Stage.split (layout : IntLayout) (stage : Stage) :
    stage.reply.flatMap (Reply.frame layout) = stage.bytes layout ++ stage.rest := by
  cases stage <;> simp [Stage.reply, Stage.bytes, Stage.rest, Reply.frame]

theorem AnsweredInOrder.ids {callFun : Option CallbackFun} {done : List Request}
    {replies : List Reply} (answered : AnsweredInOrder callFun done replies) :
    replies.map Reply.reqId = done.map Request.reqId := by
  refine List.ext_getElem (by simp [answered.length]) fun number here there => ?_
  rw [List.length_map] at here there
  rw [List.getElem_map, List.getElem_map]
  exact (answered.each number _ _ (List.getElem?_eq_getElem there)
    (List.getElem?_eq_getElem here)).reqId

namespace RpcSystem

open ClientLoop (EntriesBuilt Reading Held Calm Quiet Lasting quiet_of_transition)

variable {layout : IntLayout} {callFun : Option CallbackFun} {memory : Memory}
  {requests : List Asked} {reads : Nat} {replies taken left : List Reply} {stage : Stage}
  {sent : List UInt8} {s next : RpcSystem} {event : Event}

theorem Returning.begun (returning : Returning layout memory s replies sent) :
    sent <+: replies.flatMap (Reply.frame layout) := by
  cases returning with
  | idle => exact List.prefix_rfl
  | busy earlier reply p cells count =>
    rw [List.flatMap_append, List.flatMap_singleton]
    exact (List.prefix_append_right_inj _).mpr (List.take_prefix _ _)

/-- The replies on their way: those `taken` are in their entries, the read loop is
somewhere in the next one, and the bytes sent of what is `left` are under way. -/
structure Delivering (layout : IntLayout) (callFun : Option CallbackFun)
    (memory : Memory) (requests : List Asked) (reads : Nat) (taken : List Reply)
    (stage : Stage) (left : List Reply) (s : RpcSystem) : Prop where
  answering : Answering layout callFun memory requests reads (taken ++ stage.reply ++ left)
    (taken.flatMap (Reply.frame layout) ++ stage.bytes layout ++ s.toClient) s
  built : EntriesBuilt s.client.loop
  reading : Reading layout s.client.loop stage
  held : Held taken s.client.loop
  answered : s.client.loop.answered.length = taken.length

theorem Delivering.initial (layout : IntLayout) (callFun : Option CallbackFun)
    (memory : Memory) (csq : ClientSendQueue) :
    Delivering layout callFun memory [] 0 [] .between [] (start csq) where
  answering := .initial layout callFun memory csq
  built := .initial csq
  reading := .unconnected rfl rfl
  held _ member := by cases member
  answered := rfl

/-- The bytes under way are those that the read loop has to expect. -/
theorem Delivering.comes (delivering : Delivering layout callFun memory requests reads taken stage
    left s) : s.toClient <+: stage.rest ++ left.flatMap (Reply.frame layout) := by
  have whole := delivering.answering.returning.begun
  rw [List.flatMap_append, List.flatMap_append, Stage.split] at whole
  simp only [List.append_assoc] at whole
  exact (List.prefix_append_right_inj _).mp ((List.prefix_append_right_inj _).mp whole)

theorem Delivering.apart (delivering : Delivering layout callFun memory requests reads taken stage
    left s) (few : s.asked.length < 2 ^ 32) :
    ((taken ++ stage.reply ++ left).map Reply.reqId).Nodup := by
  have once := delivering.answering.serving.requesting.nodup few
  rw [delivering.answering.answered.ids, ← List.map_take, List.map_map]
  exact once.sublist ((List.take_sublist _ _).map _)

theorem Delivering.quiet {more : List Reply} {bytes : List UInt8} {requests' : List Asked}
    {reads' : Nat} (delivering : Delivering layout callFun memory requests reads taken stage left s)
    (answering : Answering layout callFun memory requests' reads'
      (taken ++ stage.reply ++ left ++ more)
      (taken.flatMap (Reply.frame layout) ++ stage.bytes layout ++ s.toClient ++ bytes) next)
    (toClient : next.toClient = s.toClient ++ bytes) (built : EntriesBuilt next.client.loop)
    (calm : Calm s.client.loop next.client.loop) (reading : Reading layout next.client.loop stage) :
    Delivering layout callFun memory requests' reads' taken stage (left ++ more) next where
  answering := by
    rw [toClient, ← List.append_assoc, ← List.append_assoc]
    exact answering
  built := built
  reading := reading
  held := delivering.held.calm delivering.answering.serving.requesting.catalog calm
  answered := (congrArg List.length calm.answered).trans delivering.answered

theorem Delivering.loop {more : List Reply} {requests' : List Asked} {reads' : Nat}
    {inner : ClientLoop.Event}
    (delivering : Delivering layout callFun memory requests reads taken stage left s)
    (few : s.asked.length < 2 ^ 32)
    (answering : Answering layout callFun memory requests' reads'
      (taken ++ stage.reply ++ left ++ more)
      (taken.flatMap (Reply.frame layout) ++ stage.bytes layout ++ s.toClient) next)
    (toClient : next.toClient = s.toClient)
    (stepped : s.client.step layout (.loop inner) = some next.client)
    (whole : breaks inner = false) (apart : ∀ index bytes, inner ≠ .received index bytes) :
    ∃ taken' stage',
      Delivering layout callFun memory requests' reads' taken' stage' (left ++ more) next ∧
      taken <+: taken' ∧ taken' ++ stage'.reply = taken ++ stage.reply := by
  obtain ⟨after, transition, lasts, same⟩ :=
    Requesting.follow delivering.answering.serving.requesting.lasts stepped whole
  have loop : next.client.loop = after := by rw [same]; rfl
  subst loop
  have before := delivering.answering.serving.requesting.lasts
  have built := delivering.built.step transition
  have bytes : taken.flatMap (Reply.frame layout) ++ stage.bytes layout ++ s.toClient =
      taken.flatMap (Reply.frame layout) ++ stage.bytes layout ++ s.toClient ++ [] :=
    (List.append_nil _).symm
  rw [bytes] at answering
  have still : next.toClient = s.toClient ++ [] := toClient.trans (List.append_nil _).symm
  cases inner with
  | handleConnect index error =>
    cases whole
    obtain ⟨reading, calm⟩ := delivering.reading.connected before transition
    exact ⟨taken, stage, delivering.quiet answering still built calm reading, List.prefix_rfl, rfl⟩
  | handleRead index error =>
    cases whole
    obtain ⟨new, after, reply, sent, rest, reading, held, answered⟩ :=
      delivering.reading.handled delivering.held delivering.built
        delivering.answering.serving.requesting.catalog before (delivering.apart few) transition
    have joined : taken ++ new ++ after.reply = taken ++ stage.reply := by
      rw [List.append_assoc, reply]
    refine ⟨taken ++ new, after, ⟨?_, built, reading, held, ?_⟩, List.prefix_append _ _, joined⟩
    swap
    · rw [answered, delivering.answered, List.length_append]
    have order : taken ++ new ++ after.reply ++ (left ++ more) =
        taken ++ stage.reply ++ left ++ more := by
      rw [joined, List.append_assoc _ left]
    have upTo : (taken ++ new).flatMap (Reply.frame layout) ++ after.bytes layout =
        taken.flatMap (Reply.frame layout) ++ stage.bytes layout := by
      rw [List.flatMap_append, List.append_assoc, sent]
    rw [order, upTo, toClient, bytes]
    exact answering
  | received index bytes => exact absurd rfl (apart index bytes)
  | _ =>
    have quiet := quiet_of_transition before transition whole trivial
    exact ⟨taken, stage, delivering.quiet answering still built quiet.toCalm
      (delivering.reading.quiet quiet), List.prefix_rfl, rfl⟩

/-- A step adds to the requests, to the replies and to those taken of them. -/
theorem Delivering.grows
    (delivering : Delivering layout callFun memory requests reads taken stage left s)
    (results : ResultsSound callFun) (transition : Transition layout callFun memory s event next)
    (guarded : LockStep s event next) (few : s.asked.length < 2 ^ 32) :
    ∃ new reads' more taken' stage' left',
      Delivering layout callFun memory (requests ++ new) reads' taken' stage' left' next ∧
      taken <+: taken' ∧
      taken' ++ stage'.reply ++ left' = taken ++ stage.reply ++ left ++ more := by
  obtain ⟨new, reads', more, bytes, answering, still, grows⟩ :=
    delivering.answering.step results transition guarded
  have same := List.append_nil (taken.flatMap (Reply.frame layout) ++ stage.bytes layout ++
    s.toClient)
  have behind : taken ++ stage.reply ++ (left ++ more) = taken ++ stage.reply ++ left ++ more :=
    (List.append_assoc _ _ _).symm
  refine ⟨new, reads', more, ?_⟩
  cases transition with
  | left caller client stepped =>
    obtain ⟨_, _, loop⟩ := delivering.answering.serving.requesting.ret stepped guarded.1
    refine ⟨taken, stage, _, delivering.quiet answering (grows (by simp)) ?_ ?_ ?_,
      List.prefix_rfl, behind⟩
    · rw [loop]
      exact delivering.built
    · rw [loop]
      exact .refl _
    · rw [loop]
      exact delivering.reading
  | wrote request client id stepped =>
    obtain rfl : bytes = [] := List.self_eq_append_right.mp (grows (by simp))
    rw [same] at answering
    obtain ⟨taken', stage', after, first, whole⟩ :=
      delivering.loop few answering rfl stepped rfl (by simp)
    exact ⟨taken', stage', _, after, first, by rw [whole, behind]⟩
  | moved inner client allowed stepped =>
    obtain rfl : bytes = [] := List.self_eq_append_right.mp (grows (by simp))
    rw [same] at answering
    obtain ⟨taken', stage', after, first, whole⟩ := delivering.loop few answering rfl stepped
      (breaks_of_lasting allowed) (by rintro index bytes rfl; cases allowed)
    exact ⟨taken', stage', _, after, first, by rw [whole, behind]⟩
  | received index op client start enough stepped =>
    obtain rfl := still index rfl
    rw [same] at answering
    obtain ⟨after, transition, _, rfl⟩ :=
      Requesting.follow delivering.answering.serving.requesting.lasts stepped rfl
    have length : (s.toClient.take (ClientLoop.wanted op.what)).length =
        ClientLoop.wanted op.what := List.length_take_of_le enough
    obtain ⟨stage', left', order, upTo, rest, reading, held, answered⟩ :=
      delivering.reading.received delivering.held (delivering.apart few) start length
        ((List.take_prefix _ _).trans delivering.comes) transition
    have whole : taken ++ stage'.reply ++ (left' ++ more) =
        taken ++ stage.reply ++ left ++ more := by
      rw [List.append_assoc taken, ← List.append_assoc stage'.reply, order]
      simp only [List.append_assoc]
    refine ⟨taken, stage', left' ++ more, ⟨?_, delivering.built.step transition, reading, held,
      (congrArg List.length answered).trans delivering.answered⟩, List.prefix_rfl, whole⟩
    have bytes : taken.flatMap (Reply.frame layout) ++ stage'.bytes layout ++
        s.toClient.drop (ClientLoop.wanted op.what) =
          taken.flatMap (Reply.frame layout) ++ stage.bytes layout ++ s.toClient := by
      rw [upTo, List.append_assoc, List.append_assoc, List.append_assoc, List.take_append_drop]
    rw [whole, bytes]
    exact answering
  | requestSent index count client stepped =>
    obtain ⟨_, _, loop⟩ := delivering.answering.serving.requesting.piece stepped guarded
    refine ⟨taken, stage, _, delivering.quiet answering (grows (by simp)) ?_ ?_ ?_,
      List.prefix_rfl, behind⟩
    · rw [loop]
      exact delivering.built
    · rw [loop]
      exact .refl _
    · rw [loop]
      exact delivering.reading
  | _ =>
    exact ⟨taken, stage, _, delivering.quiet answering (grows (by simp)) delivering.built (.refl _)
      delivering.reading, List.prefix_rfl, behind⟩

theorem Delivering.step
    (delivering : Delivering layout callFun memory requests reads taken stage left s)
    (results : ResultsSound callFun) (transition : Transition layout callFun memory s event next)
    (guarded : LockStep s event next) (few : s.asked.length < 2 ^ 32) :
    ∃ requests' reads' taken' stage' left',
      Delivering layout callFun memory requests' reads' taken' stage' left' next := by
  obtain ⟨_, _, _, _, _, _, later, _⟩ := delivering.grows results transition guarded few
  exact ⟨_, _, _, _, _, later⟩

/-- Every answer that a caller can find: the entry was registered for a call of
`write`, and holds the reply to that request, computed by the callback behind the
requests that were executed before it. -/
def Answered (callFun : Option CallbackFun) (s : RpcSystem) : Prop :=
  ∃ executed : List Asked, executed.map Asked.addr <+: s.client.loop.handed.map Outgoing.addr ∧
    (∀ a ∈ executed, a ∈ s.asked) ∧
    (∀ call ∈ s.client.loop.readers, ∃ g ∈ s.client.loop.registered, g.entry = call.entry) ∧
    (∀ (id : Int32) (p : Ptr), s.client.loop.recvMsgMap[id]? = some p →
      ∃ g ∈ s.client.loop.registered, g.reqId = id ∧ g.entry = p) ∧
    ∀ g ∈ s.client.loop.registered, (s.client.loop.entries g.entry).status = .readOk →
      ∃ earlier a later reply, executed = earlier ++ a :: later ∧ a.addr = g.addr ∧
        a.request.reqId = g.reqId ∧
        Reply.Answers callFun (earlier.map Asked.request) a.request reply ∧
        (s.client.loop.entries g.entry).Holds reply

theorem Delivering.right
    (delivering : Delivering layout callFun memory requests reads taken stage left s)
    (few : s.asked.length < 2 ^ 32) : Answered callFun s := by
  have requesting := delivering.answering.serving.requesting
  have executed : requests.take (reads / 2) <+: requests := List.take_prefix _ _
  refine ⟨requests.take (reads / 2), ?_, ?_, requesting.catalog.readers,
    requesting.catalog.mapped, ?_⟩
  · rw [← Handing.addrs requesting.handed]
    exact executed.map _
  · exact fun a member => requesting.known a (executed.subset member)
  · intro g registered status
    obtain ⟨reply, member, same, holds⟩ := delivering.held g registered status
    have answered := delivering.answering.answered
    rw [← List.map_take] at answered
    obtain ⟨number, there⟩ := List.getElem?_of_mem (List.mem_append_left left
      (List.mem_append_left stage.reply member))
    have inside := (List.getElem?_eq_some_iff.mp there).1
    rw [answered.length, List.length_map] at inside
    have found := List.getElem?_eq_getElem inside
    have answers := answered.each number _ reply (by rw [List.getElem?_map, found]; rfl) there
    -- The call that registered the entry is the one whose request was executed.
    obtain ⟨own, asked, addr, id⟩ := requesting.registered g registered
    have known := requesting.known _ (executed.subset (List.getElem_mem inside))
    have caller : own = (requests.take (reads / 2))[number] :=
      requesting.same_of_id few asked known (id.trans (same.symm.trans answers.reqId))
    refine ⟨(requests.take (reads / 2)).take number, _, (requests.take (reads / 2)).drop
      (number + 1), reply, ?_, caller ▸ addr, caller ▸ id, ?_, holds⟩
    · rw [List.cons_getElem_drop_succ, List.take_append_drop]
    · rw [List.map_take]
      exact answers

/-- Nothing is under way: what the client has handed over has been sent, read and
answered, the answers have been received, and no handler of theirs is left. -/
structure Settled (s : RpcSystem) : Prop where
  sent : ∀ m ∈ s.client.loop.handed, s.client.unsent m = []
  arrived : s.arrived = s.client.wire.length
  decoded : s.session.input = []
  reading : s.session.reading = .head
  written : s.session.writing = []
  received : s.toClient = []
  handled : ∀ op ∈ s.client.loop.link.reads, op.state = .live

/-- Every request handed over was executed once, and one reply was taken for each. -/
def Complete (callFun : Option CallbackFun) (s : RpcSystem) : Prop :=
  ∃ executed : List Asked, executed.map Asked.addr = s.client.loop.handed.map Outgoing.addr ∧
    (∀ a ∈ executed, a ∈ s.asked) ∧
    s.session.calls = callsOf callFun (executed.map Asked.request) ∧
    s.client.loop.answered.length = s.client.loop.handed.length

private theorem flatMap_frame_nil {replies : List Reply}
    (nothing : replies.flatMap (Reply.frame layout) = []) : replies = [] := by
  cases replies with
  | nil => rfl
  | cons r rest =>
    have length := congrArg List.length nothing
    simp [Reply.frame, RpcStructHead.length_data] at length

/-- When all that was handed over has arrived, the bytes of all requests have. -/
theorem Serving.arrived (serving : Serving layout callFun requests reads s)
    (sent : ∀ m ∈ s.client.loop.handed, s.client.unsent m = [])
    (arrived : s.arrived = s.client.wire.length) :
    LinkSession.Decodes layout callFun (requests.map Asked.request)
      ((requests.map Asked.request).map (Request.frame layout)).flatten reads s.session := by
  obtain ⟨bytes, same, _, decodes⟩ := serving.received.decodes
  have requesting := serving.requesting
  have due : s.client.due = [] := by
    refine List.flatMap_eq_nil_iff.mpr fun m member => ?_
    exact sent m (List.mem_of_mem_drop member)
  have wire := requesting.untorn.due
  rw [due, List.append_nil, WireClient.started, requesting.base, List.drop_zero,
    Handing.frames requesting.handed] at wire
  rw [arrived, List.take_length, wire] at same
  have whole := List.map_injective_iff.mpr (fun _ _ => Option.some.inj) same
  rw [List.map_map]
  rw [← whole] at decodes
  exact decodes

theorem Serving.settled (serving : Serving layout callFun requests reads s) (settled : Settled s) :
    reads / 2 = requests.length ∧
      s.session.calls = callsOf callFun (requests.map Asked.request) := by
  have decodes := serving.arrived settled.sent settled.arrived
  obtain ⟨done, current, left, split, decoding⟩ := decodes
  have total := decoding.reads
  have position := decoding.position
  cases decoding.phase with
  | stopped _ reading => cases reading.symm.trans settled.reading
  | msg r p reading => cases reading.symm.trans settled.reading
  | head reading =>
  rw [settled.decoded, split, Option.toList_none, List.append_nil, List.map_append,
    List.flatten_append] at position
  have nothing : (left.map (Request.frame layout)).flatten = [] := by
    simpa using position
  have none : left = [] := by
    cases left with
    | nil => rfl
    | cons r rest =>
      have length := congrArg List.length nothing
      simp [Request.frame, RpcStructHead.length_data] at length
  subst none
  rw [Option.toList_none, List.append_nil, List.append_nil] at split
  have count := congrArg List.length split
  rw [List.length_map] at count
  refine ⟨?_, ?_⟩
  · rw [Option.toList_none, List.length_nil] at total
    omega
  · rw [split]
    exact decoding.calls

/-- Once no reply is being written, the bytes under way are all that is expected. -/
theorem Delivering.all_sent
    (delivering : Delivering layout callFun memory requests reads taken stage left s)
    (quiet : s.session.writing = []) :
    s.toClient = stage.rest ++ left.flatMap (Reply.frame layout) := by
  have returning := delivering.answering.returning
  generalize same : taken ++ stage.reply ++ left = replies at returning
  generalize bytes : taken.flatMap (Reply.frame layout) ++ stage.bytes layout ++ s.toClient =
    sent at returning
  cases returning with
  | busy earlier reply p cells count queue writing => cases writing.symm.trans quiet
  | idle =>
    rw [← same, List.flatMap_append, List.flatMap_append, Stage.split] at bytes
    simpa [List.append_assoc] using bytes

theorem Delivering.complete
    (delivering : Delivering layout callFun memory requests reads taken stage left s)
    (settled : Settled s) : Complete callFun s := by
  have requesting := delivering.answering.serving.requesting
  obtain ⟨all, calls⟩ := delivering.answering.serving.settled settled
  refine ⟨requests, Handing.addrs requesting.handed, requesting.known, calls, ?_⟩
  have handed := requesting.handed.length_eq
  have length := delivering.answering.answered.length
  rw [all, ← List.map_take, List.take_length, List.length_map] at length
  have nothing : stage.rest ++ left.flatMap (Reply.frame layout) = [] :=
    (delivering.all_sent settled.written).symm.trans settled.received
  obtain ⟨rest, none⟩ := List.append_eq_nil_iff.mp nothing
  cases flatMap_frame_nil none
  have between : stage.reply = [] := by
    cases delivering.reading with
    | unconnected => rfl
    | reading op connects alone stands =>
    cases stands with
    | awaiting => rfl
    | headed r conn =>
      have length := congrArg List.length rest
      simp [Stage.rest, Reply.length_payload] at length
    | filling r p wide conn =>
      have length := congrArg List.length rest
      simp [Stage.rest, Reply.length_payload] at length
    | filled r p wide conn =>
      have live := settled.handled _ (by rw [alone]; exact List.mem_singleton_self _)
      cases live
  rw [between, List.append_nil, List.append_nil] at length
  rw [delivering.answered, length, handed]

/-- So it is behind every run whose replies leave one at a time. -/
theorem delivering_of_run (layout : IntLayout) (callFun : Option CallbackFun)
    (memory : Memory) (results : ResultsSound callFun) (csq : ClientSendQueue)
    {schedule : List Event} {s : RpcSystem}
    (reached : (machine layout callFun memory).run (start csq) schedule = some s)
    (guarded : (machine layout callFun memory).AllSteps LockStep (start csq) schedule)
    (few : (schedule.map Event.writes).sum < 2 ^ 32) :
    ∃ requests reads taken stage left,
      Delivering layout callFun memory requests reads taken stage left s := by
  have delivering : s.asked.length < 2 ^ 32 → ∃ requests reads taken stage left,
      Delivering layout callFun memory requests reads taken stage left s := by
    refine Machine.run_invariant (fun s => s.asked.length < 2 ^ 32 → ∃ requests reads taken stage
      left, Delivering layout callFun memory requests reads taken stage left s) LockStep ?_
      (fun _ => ⟨[], 0, [], .between, [], .initial layout callFun memory csq⟩) guarded reached
    intro before event after held taken lockStep few
    have transition := transition_of_step taken
    have fewer : before.asked.length < 2 ^ 32 :=
      Nat.lt_of_le_of_lt (by rw [asked_step transition]; exact Nat.le_add_right _ _) few
    obtain ⟨_, _, _, _, _, delivering⟩ := held fewer
    exact delivering.step results transition lockStep fewer
  exact delivering (asked_few reached few)

/-- While replies leave one at a time, no entry ever holds the answer to another
request: not on any interleaving of callers, handlers, timers and pieces of bytes. -/
theorem answered_of_run (layout : IntLayout) (callFun : Option CallbackFun)
    (memory : Memory) (results : ResultsSound callFun) (csq : ClientSendQueue)
    {schedule : List Event} {s : RpcSystem}
    (reached : (machine layout callFun memory).run (start csq) schedule = some s)
    (guarded : (machine layout callFun memory).AllSteps LockStep (start csq) schedule)
    (few : (schedule.map Event.writes).sum < 2 ^ 32) : Answered callFun s := by
  obtain ⟨_, _, _, _, _, delivering⟩ :=
    delivering_of_run layout callFun memory results csq reached guarded few
  exact delivering.right (asked_few reached few)

/-- Nor is a request or a reply ever lost: once nothing is under way, every request
handed over has been executed and the client has taken as many replies. -/
theorem complete_of_run (layout : IntLayout) (callFun : Option CallbackFun)
    (memory : Memory) (results : ResultsSound callFun) (csq : ClientSendQueue)
    {schedule : List Event} {s : RpcSystem}
    (reached : (machine layout callFun memory).run (start csq) schedule = some s)
    (guarded : (machine layout callFun memory).AllSteps LockStep (start csq) schedule)
    (few : (schedule.map Event.writes).sum < 2 ^ 32) (settled : Settled s) :
    Complete callFun s := by
  obtain ⟨_, _, _, _, _, delivering⟩ :=
    delivering_of_run layout callFun memory results csq reached guarded few
  exact delivering.complete settled

instance (s : RpcSystem) (event : Event) (next : RpcSystem) : Decidable (LockStep s event next) :=
  match event with
  | .session .readOk =>
    match reading : s.session.reading with
    | .msg p length => decidable_of_iff (s.session.writeMsgs = [])
        ⟨fun empty _ _ _ _ => empty, fun guarded => guarded rfl p length reading⟩
    | .head | .stopped => isTrue fun _ p length other => by cases reading.symm.trans other
  | .session (.arrive _) | .session (.readError) | .session (.writeOk _)
  | .session (.writeError _) => isTrue fun other => by cases other
  | .write body => inferInstanceAs (Decidable (KeepsFrames s (.write body) next))
  | .ret caller => inferInstanceAs (Decidable (KeepsFrames s (.ret caller) next ∧ _))
  | .client inner => inferInstanceAs (Decidable (KeepsFrames s (.client inner) next))
  | .sendRequest index count =>
    inferInstanceAs (Decidable (KeepsFrames s (.sendRequest index count) next))
  | .arrive count => inferInstanceAs (Decidable (KeepsFrames s (.arrive count) next))
  | .sendReply index count =>
    inferInstanceAs (Decidable (KeepsFrames s (.sendReply index count) next))
  | .receive index => inferInstanceAs (Decidable (KeepsFrames s (.receive index) next))

/-- The request of one byte is answered; the reply comes in two pieces too. -/
def oneExchange : List Event :=
  oneRequest ++ [.sendReply 0 20, .receive 0, .client (.handleRead 0 false), .sendReply 0 14,
    .session (.writeOk 0), .receive 0, .client (.handleRead 0 false)]

theorem oneExchange_answered :
    ∃ s, (machine .littleEndian (some LinkSession.callP) noMemory).run (start .on)
        oneExchange = some s ∧
      (s.client.loop.recvMsgMap[(1 : Int32)]?).map (fun p => (s.client.loop.entries p).status) =
        some .readOk ∧ Answered (some LinkSession.callP) s := by
  have runs : ((machine .littleEndian (some LinkSession.callP) noMemory).run (start .on)
      oneExchange).map (fun s => (s.client.loop.recvMsgMap[(1 : Int32)]?).map
        (fun p => (s.client.loop.entries p).status)) = some (some .readOk) := by
    decide +kernel
  obtain ⟨s, reached, status⟩ := Option.map_eq_some_iff.mp runs
  exact ⟨s, reached, status, answered_of_run .littleEndian (some LinkSession.callP) noMemory
    callP_sound .on reached (by decide +kernel) (by decide)⟩

theorem oneExchange_complete :
    ∃ s, (machine .littleEndian (some LinkSession.callP) noMemory).run (start .on)
        oneExchange = some s ∧ s.client.loop.handed.length = 1 ∧
      Complete (some LinkSession.callP) s := by
  have runs : ((machine .littleEndian (some LinkSession.callP) noMemory).run (start .on)
      oneExchange).map (fun s => (s.client.loop.handed.length,
        s.client.loop.handed.all fun m => (s.client.unsent m).isEmpty,
        s.arrived == s.client.wire.length && s.session.input.isEmpty && s.session.writing.isEmpty &&
          s.toClient.isEmpty && s.client.loop.link.reads.all fun op => op.state = .live,
        match s.session.reading with | .head => true | _ => false)) =
      some (1, true, true, true) := by
    decide +kernel
  obtain ⟨s, reached, facts⟩ := Option.map_eq_some_iff.mp runs
  simp only [Prod.mk.injEq, Bool.and_eq_true, List.isEmpty_iff, beq_iff_eq, List.all_eq_true,
    decide_eq_true_eq] at facts
  obtain ⟨one, sent, ⟨⟨⟨⟨arrived, decoded⟩, written⟩, received⟩, handled⟩, reading⟩ := facts
  have settled : Settled s := by
    refine ⟨sent, arrived, decoded, ?_, written, received, handled⟩
    split at reading
    · assumption
    · cases reading
  exact ⟨s, reached, one, complete_of_run .littleEndian (some LinkSession.callP) noMemory
    callP_sound .on reached (by decide +kernel) (by decide) settled⟩

end RpcSystem

end RpcLoop
