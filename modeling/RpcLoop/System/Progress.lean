import RpcLoop.System.Work

/-! A connection never gets stuck. As long as a request or a reply is under way,
some step delivers more of it, and such steps come to an end. -/

namespace RpcLoop

open Foundation Asio Shared

namespace ClientLoop

variable {layout : IntLayout} {s : ClientLoop} {stage : Stage}

private theorem writer_moves (layout : IntLayout) {w : WriteCall} (call : s.writers[0]? = some w) :
    ∃ event, hands event = true ∧ RpcSystem.lasting event = true ∧ sends s event = none ∧
      (∀ index, event ≠ .sent index) ∧ (s.step layout event).isSome = true := by
  cases w with
  | built m =>
    refine ⟨.push 0, rfl, rfl, rfl, by simp, ?_⟩
    simp only [step, pushMsg, call]
    split <;> rfl
  | queued m => exact ⟨.insert 0, rfl, rfl, rfl, by simp, by simp [step, insertEntry, call]⟩
  | inserted m p => exact ⟨.arm 0, rfl, rfl, rfl, by simp, by simp [step, armTimer, call]⟩
  | armed m => exact ⟨.post 0, rfl, rfl, rfl, by simp, by simp [step, postWrite, call]⟩

private theorem connect_moves (layout : IntLayout) {op : Operation Unit}
    (start : s.link.connects[0]? = some op) (going : op.state ≠ .aborted) (lasts : Lasting s) :
    ∃ event, hands event = true ∧ RpcSystem.lasting event = true ∧ sends s event = none ∧
      (∀ index, event ≠ .sent index) ∧ (s.step layout event).isSome = true := by
  cases state : op.state with
  | aborted => exact absurd state going
  | live =>
    refine ⟨.connected 0, rfl, rfl, rfl, by simp, ?_⟩
    simp [step, completeConnect, start, state, lasts.unlost]
  | done =>
    refine ⟨.handleConnect 0 false, rfl, rfl, rfl, by simp, ?_⟩
    have still : ({ s.endConnect 0 with clietnStatus := .connOk } : Link).opened = true :=
      lasts.opened
    have reading := Link.asyncRead_of_opened still (.head {})
    have delivers : op.Delivers false := state
    simp only [endConnect] at reading
    simp only [step, invokeConnect, start, delivers, if_true, handleConnect, Bool.false_eq_true,
      if_false, doReadHead, reading, Option.bind_eq_bind, Option.bind_some, Option.pure_def,
      Option.isSome_some]

/-- On an open socket a write is started. -/
theorem sendMsg_isSome (opened : s.link.opened = true) (m : Outgoing) :
    (s.sendMsg m).isSome = true := by
  simp [sendMsg, Link.asyncWrite_of_opened opened]

theorem doWrite_isSome (opened : s.link.opened = true) : s.doWrite.isSome = true := by
  unfold doWrite
  split
  · rfl
  · split
    · rfl
    · refine sendMsg_isSome ?_ _
      exact opened

private theorem posted_moves (layout : IntLayout) (lasts : Lasting s) {handler : Posted}
    (queued : s.posted[0]? = some handler) : (s.step layout (.runPosted 0)).isSome = true := by
  have opened := lasts.opened
  simp only [step, runPosted, queued, Option.bind_eq_bind, Option.bind_some]
  cases handler with
  | doWrite => exact doWrite_isSome opened
  | doWriteMsg m =>
    simp only [doWriteMsg]
    split
    · rfl
    · refine sendMsg_isSome ?_ m
      exact opened
  | doClose => exact absurd (List.mem_of_getElem? queued) lasts.unclosed

private theorem handleWrite_isSome (layout : IntLayout) {index : Nat} {op : Operation Outgoing}
    (start : s.link.writes[index]? = some op) (done : op.state = .done)
    (opened : s.link.opened = true) : (s.step layout (.handleWrite index false)).isSome = true := by
  have delivers : op.Delivers false := done
  have still : (s.endWrite index).opened = true := opened
  have asked := Link.isOpen_of_opened still
  simp only [endWrite] at asked
  simp only [step, invokeWrite, start, delivers, if_true, ifOpen, asked, Option.bind_eq_bind,
    Option.bind_some, Bool.true_eq_false, if_false, ClientLoop.handleWrite, Bool.false_eq_true]
  split
  · exact doWrite_isSome opened
  · rfl

private theorem handleRead_isSome {op : Operation Receive} (reading : Reading layout s stage)
    (built : EntriesBuilt s) (start : s.link.reads[0]? = some op) (done : op.state = .done)
    (opened : s.link.opened = true) : (s.step layout (.handleRead 0 false)).isSome = true := by
  obtain ⟨_, alone, _, stands⟩ := reading.only start
  have invoked : s.step layout (.handleRead 0 false) = afterRead layout s.readEnded op.what :=
    invokeRead_eq alone rfl done opened
  rw [invoked]
  cases stands with
  | awaiting t conn => cases done
  | filling r q length conn => cases done
  | headed r conn =>
    have bodyLen := r.toInt_bodyLen
    have fits := r.fits
    have length := r.length_payload
    have eight : r.head.metaLen.toInt = 8 := rfl
    cases found : s.recvMsgMap[r.reqId]? with
    | some p =>
      obtain ⟨known, ready, _, _, headed, buffer, _⟩ := (built.grown _ _ found).receive layout
        r.head r.payload rfl (by omega) (by omega) (by omega)
      rw [afterRead_known r.head opened found headed buffer]
      rfl
    | none =>
      obtain ⟨ready, _, _, buffer, _⟩ :=
        RpcStruct.receive_eq layout r.head r.payload (by omega) (by omega) (by omega) (by omega)
      rw [afterRead_unknown r.head opened found buffer]
      rfl
  | filled r p length conn target carried =>
    obtain ⟨_, filled⟩ := carried.filled
    obtain ⟨_, body, _⟩ := filled.newData
    rw [afterRead_msg opened body]
    rfl

private theorem received_isSome {op : Operation Receive} (reading : Reading layout s stage)
    (start : s.link.reads[0]? = some op) (live : op.state = .live)
    (connected : s.link.connected = true) {bytes : List UInt8} {left : List Reply}
    (asked : bytes.length = wanted op.what)
    (comes : bytes <+: stage.rest ++ left.flatMap (Reply.frame layout)) :
    (s.step layout (.received 0 bytes)).isSome = true := by
  obtain ⟨_, _, _, stands⟩ := reading.only start
  cases stands with
  | headed r conn => cases live
  | filled r p length conn => cases live
  | awaiting t conn =>
    have twelve : bytes.length = 12 := asked
    simp [step, completeRead, start, connected, twelve]
  | filling r p wide conn target expects same =>
    subst same
    have length := asked.trans expects.asked
    have payload : bytes = r.payload := by
      have shorter := List.prefix_of_prefix_length_le comes
        (List.prefix_append r.payload (left.flatMap (Reply.frame layout))) (Nat.le_of_eq length)
      exact shorter.eq_of_length length
    subst payload
    obtain ⟨filled, received, _⟩ := expects.fills
    have total : (s.entries p).recvMsgLen.toInt = r.payload.length := by
      have bodyLen := r.toInt_bodyLen
      have fits := r.fits
      have eight : r.head.metaLen.toInt = 8 := rfl
      rw [RpcStruct.recvMsgLen, expects.head, CInt.toInt_add _ _ (by omega) (by omega),
        r.length_payload]
      omega
    have nonneg : 0 ≤ (s.entries p).recvMsgLen ∧
        r.payload.length = (s.entries p).recvMsgLen.toNatClampNeg := by
      rw [CInt.nonneg_iff, CInt.toNatClampNeg_eq]
      omega
    simp [step, completeRead, start, connected, nonneg, received, Except.toOption]

end ClientLoop

theorem WireClient.Flowing.oldest {s : WireClient} (flowing : Flowing s) (base : s.base = 0)
    (left : ∃ m ∈ s.loop.handed, s.unsent m ≠ []) :
    ∃ index op, s.loop.link.writes[index]? = some op ∧ op.state = .live ∧
      op.conn = s.loop.link.attempt ∧ s.unsent op.what ≠ [] ∧ s.oldest index = true := by
  obtain ⟨m, before, after, split, some, none⟩ : ∃ m before after,
      s.loop.handed = before ++ m :: after ∧ s.unsent m ≠ [] ∧ ∀ other ∈ before,
        s.unsent other = [] := by
    obtain ⟨m, known, some⟩ := left
    have there : (s.loop.handed.find? fun m => !(s.unsent m).isEmpty).isSome = true := by
      simpa using ⟨m, known, some⟩
    obtain ⟨m, first⟩ := Option.isSome_iff_exists.mp there
    obtain ⟨some, before, after, split, none⟩ := List.find?_eq_some_iff_append.mp first
    exact ⟨m, before, after, split, by simpa using some, by simpa using none⟩
  have member : m ∈ s.loop.handed := by
    rw [split]
    exact List.mem_append_right _ List.mem_cons_self
  obtain ⟨op, known, rfl, live⟩ := flowing.underway m member some
  obtain ⟨index, found⟩ := List.getElem?_of_mem known
  refine ⟨index, op, found, live, (flowing.writes op known).1, some, ?_⟩
  have started : s.started = before ++ op.what :: after := by
    rw [WireClient.started, base, List.drop_zero, split]
  have earlier : ∀ other ∈ s.started.takeWhile (·.addr != op.what.addr), other ∈ before := by
    intro other member
    rw [started, List.takeWhile_append] at member
    split at member
    · simpa using member
    · exact (List.takeWhile_prefix _).subset member
  simp only [WireClient.oldest, found, List.all_eq_true, List.isEmpty_iff]
  exact fun other member => none other (earlier other member)

/-- When every write is over, one of them leaves only writes whose callers are
inside `write`: the one of the dummy head, if its caller has left. -/
theorem WireClient.Flowing.leaving {s : WireClient} (flowing : Flowing s)
    (owning : OwningClient.Owning s.toOwningClient) (busy : s.loop.link.writes ≠ []) :
    ∃ index op, s.loop.link.writes[index]? = some op ∧
      ∀ other ∈ s.loop.link.writes.eraseIdx index, OwningClient.Held s.inside other.what := by
  by_cases all : ∀ op ∈ s.loop.link.writes, OwningClient.Held s.inside op.what
  · obtain ⟨op, rest, same⟩ := List.exists_cons_of_ne_nil busy
    refine ⟨0, op, by rw [same]; rfl, fun other member => ?_⟩
    exact all other (List.mem_of_mem_eraseIdx member)
  · simp only [not_forall, exists_prop] at all
    obtain ⟨op, member, left⟩ := all
    obtain ⟨index, found⟩ := List.getElem?_of_mem member
    refine ⟨index, op, found, fun other there => ?_⟩
    by_contra gone
    have head : ∀ op ∈ s.loop.link.writes, ¬ OwningClient.Held s.inside op.what →
        ∃ last, s.loop.writeMsgQueue.head = some last ∧ last.addr = op.what.addr := by
      intro op member left
      refine (((OwningClient.held_owners owning.placed (owning.placed.writes op member)).mp
        (owning.owns op member)).resolve_right fun called => left ?_)
      exact OwningClient.held_inside.mpr called
    obtain ⟨last, first, addr⟩ := head op member left
    obtain ⟨again, second, same⟩ := head other (List.mem_of_mem_eraseIdx there) gone
    cases first.symm.trans second
    obtain ⟨position, apart, found'⟩ := List.mem_eraseIdx_iff_getElem?.mp there
    have inside := (List.getElem?_eq_some_iff.mp found').1
    refine apart ((List.getElem?_inj (by simpa using inside) flowing.once).mp ?_)
    rw [List.getElem?_map, List.getElem?_map, found, found']
    exact congrArg some (same.symm.trans addr)

namespace RpcSystem

open ClientLoop (hands Reading Lasting)

variable {layout : IntLayout} {callFun : Option CallbackFun} {memory : Memory}
  {requests : List Asked} {reads : Nat} {replies taken left : List Reply} {stage : Stage}
  {sent : List UInt8} {s next : RpcSystem} {event : Event}

/-- Some step delivers something. -/
def Ready (layout : IntLayout) (callFun : Option CallbackFun) (memory : Memory)
    (s : RpcSystem) : Prop :=
  ∃ event next, (machine layout callFun memory).step s event = some next ∧ Delivers s event next

theorem ready_of_client (inner : ClientLoop.Event) (forward : forwards inner = true)
    (allowed : lasting inner = true) (may : s.client.mayHappen inner = true)
    (keeps : s.client.keepsSent inner = true)
    (taken : (s.client.loop.step layout inner).isSome = true) :
    Ready layout callFun memory s := by
  obtain ⟨after, stepped⟩ := Option.isSome_iff_exists.mp taken
  refine ⟨.client inner, { s with
    client := s.client.follow (s.client.toOwningClient.after inner after) }, ?_,
    OwningClient.keepsOwner_loop.mpr keeps, forward⟩
  simp [machine, step, allowed, WireClient.step, may, OwningClient.step, stepped,
    OwningClient.after]

private theorem forwards_of_hands {inner : ClientLoop.Event} (moves : hands inner = true) :
    forwards inner = true := by
  cases inner with
  | handleRead => rfl
  | _ => exact moves

theorem ready_of_hands {inner : ClientLoop.Event} (moves : hands inner = true)
    (allowed : lasting inner = true) (keeps : s.client.keepsSent inner = true)
    (apart : ∀ index, inner ≠ .sent index)
    (taken : (s.client.loop.step layout inner).isSome = true) :
    Ready layout callFun memory s := by
  refine ready_of_client inner (forwards_of_hands moves) allowed ?_ keeps taken
  cases inner with
  | sent index => exact absurd rfl (apart index)
  | _ => rfl

theorem Moving.client_ready (moving : Moving layout callFun memory s)
    (busy : s.client.loop.writers ≠ [] ∨ s.client.loop.link.connects ≠ []) :
    Ready layout callFun memory s := by
  obtain ⟨_, _, _, _, _, delivering⟩ := moving.delivering
  have lasts := delivering.answering.serving.requesting.lasts
  rcases busy with busy | busy
  · obtain ⟨w, rest, same⟩ := List.exists_cons_of_ne_nil busy
    obtain ⟨inner, moves, allowed, quiet, apart, taken⟩ :=
      ClientLoop.writer_moves layout (by rw [same]; rfl)
    exact ready_of_hands moves allowed (OwningClient.keepsSent_of_quiet quiet) apart taken
  · obtain ⟨op, rest, same⟩ := List.exists_cons_of_ne_nil busy
    have going := moving.flowing.connects op (by rw [same]; exact List.mem_cons_self)
    obtain ⟨inner, moves, allowed, quiet, apart, taken⟩ :=
      ClientLoop.connect_moves layout (by rw [same]; rfl) going lasts
    exact ready_of_hands moves allowed (OwningClient.keepsSent_of_quiet quiet) apart taken

/-- Behind its connect a lasting connection is established. -/
theorem Moving.connected (moving : Moving layout callFun memory s)
    (settled : s.client.loop.link.connects = []) : s.client.loop.link.connected = true := by
  obtain ⟨_, _, _, _, _, delivering⟩ := moving.delivering
  have opened := delivering.answering.serving.requesting.lasts.opened
  have pending := moving.flowing.sound.pending
  cases connected : s.client.loop.link.connected with
  | true => rfl
  | false =>
    rw [opened, connected, Link.connecting, settled] at pending
    cases pending

private theorem keepsSent_written {client : OwningClient} {index : Nat}
    (others : ∀ op ∈ client.loop.link.writes.eraseIdx index,
      OwningClient.Held client.inside op.what) :
    client.keepsSent (.handleWrite index false) = true := by
  cases sending : ClientLoop.sends client.loop (.handleWrite index false) with
  | none => exact OwningClient.keepsSent_of_quiet sending
  | some m =>
    have mode : client.loop.csq = .on := by
      simp only [ClientLoop.sends] at sending
      split at sending
      · rename_i both
        exact both.2
      · cases sending
    simpa [OwningClient.keepsSent, sending, mode, ClientLoop.otherWrites] using others

theorem Moving.write_ready (moving : Moving layout callFun memory s)
    (settled : s.client.loop.link.connects = [])
    (busy : (∃ m ∈ s.client.loop.handed, s.client.unsent m ≠ []) ∨
      s.client.loop.link.writes ≠ []) : Ready layout callFun memory s := by
  obtain ⟨_, _, _, _, _, delivering⟩ := moving.delivering
  have requesting := delivering.answering.serving.requesting
  have connected := moving.connected settled
  by_cases left : ∃ m ∈ s.client.loop.handed, s.client.unsent m ≠ []
  · obtain ⟨index, op, found, live, conn, some, oldest⟩ :=
      moving.flowing.oldest requesting.base left
    have positive := List.length_pos_iff.mpr some
    refine ⟨.sendRequest index 1, { s with client := s.client.advance op.what 1 }, ?_, oldest,
      trivial⟩
    have enough : 1 ≤ (s.client.unsent op.what).length := positive
    simp [machine, RpcSystem.step, WireClient.step, WireClient.sendPiece, found, live, conn,
      connected, enough]
  · by_cases live : ∃ op ∈ s.client.loop.link.writes, op.state = .live
    · obtain ⟨op, known, state⟩ := live
      obtain ⟨index, start⟩ := List.getElem?_of_mem known
      have sent : s.client.unsent op.what = [] := by
        by_contra some
        exact left ⟨op.what, requesting.untorn.placed.writes op known, some⟩
      refine ready_of_client (.sent index) rfl rfl ?_ (OwningClient.keepsSent_of_quiet rfl) ?_
      · simp [WireClient.mayHappen, start, sent]
      · simp [ClientLoop.step, ClientLoop.completeWrite, start, state, connected]
    · obtain ⟨index, op, start, others⟩ :=
        moving.flowing.leaving requesting.untorn.owning (busy.resolve_left left)
      have known := List.mem_of_getElem? start
      cases state : op.state with
      | aborted => exact absurd state (moving.flowing.writes op known).2
      | live => exact absurd ⟨op, known, state⟩ live
      | done =>
        exact ready_of_hands rfl rfl (keepsSent_written others) (by simp)
          (ClientLoop.handleWrite_isSome layout start state requesting.lasts.opened)

theorem Moving.posted_ready (moving : Moving layout callFun memory s)
    (unwritten : s.client.loop.link.writes = []) (busy : s.client.loop.posted ≠ []) :
    Ready layout callFun memory s := by
  obtain ⟨_, _, _, _, _, delivering⟩ := moving.delivering
  have requesting := delivering.answering.serving.requesting
  obtain ⟨handler, rest, same⟩ := List.exists_cons_of_ne_nil busy
  have queued : s.client.loop.posted[0]? = some handler := by rw [same]; rfl
  refine ready_of_hands rfl rfl ?_ (by simp)
    (ClientLoop.posted_moves layout requesting.lasts queued)
  cases sending : ClientLoop.sends s.client.loop (.runPosted 0) with
  | none => exact OwningClient.keepsSent_of_quiet sending
  | some m =>
    cases mode : s.client.loop.csq with
    | on => simp [OwningClient.keepsSent, sending, mode, ClientLoop.otherWrites, unwritten]
    | off =>
      have empty := requesting.untorn.placed.direct mode
      have waits := (ClientLoop.sends_source sending).resolve_left fun member => by
        rw [(List.append_eq_nil_iff.mp empty).2] at member
        cases member
      simpa [OwningClient.keepsSent, sending, mode] using moving.bound m waits

theorem Serving.arrive_ready (serving : Serving layout callFun requests reads s)
    (busy : s.arrived ≠ s.client.wire.length) : Ready layout callFun memory s := by
  have inside : s.arrived < s.client.wire.length :=
    Nat.lt_of_le_of_ne serving.received.arrived_le busy
  obtain ⟨bytes, wire⟩ : ∃ bytes : List UInt8, s.client.wire = bytes.map some := by
    have sent := List.prefix_iff_eq_take.mp serving.received.sent
    rw [← List.map_take] at sent
    exact ⟨_, sent⟩
  have found : shown (fun index =>
      memory.freed s.client.loop.link.attempt (s.arrived + index))
        ((s.client.wire.drop s.arrived).take 1) = (bytes.drop s.arrived).take 1 := by
    rw [wire, ← List.map_drop, ← List.map_take]
    exact shown_map_some _ _
  have one : ((bytes.drop s.arrived).take 1).length = 1 := by
    rw [wire, List.length_map] at inside
    rw [List.length_take, List.length_drop]
    omega
  refine ⟨.arrive 1, { s with
    session := { s.session with input := s.session.input ++ (bytes.drop s.arrived).take 1 }
    arrived := s.arrived + ((bytes.drop s.arrived).take 1).length }, ?_, trivial, ?_⟩
  · simp only [machine, RpcSystem.step, RpcSystem.arrive, found, LinkSession.step,
      Option.bind_eq_bind, Option.bind_some, Option.pure_def]
  · change s.arrived < s.arrived + _
    omega

theorem Returning.ready (returning : Returning layout memory s replies sent)
    (busy : s.session.writing ≠ []) : Ready layout callFun memory s := by
  cases returning with
  | idle replies queue writing progress => exact absurd writing busy
  | busy earlier reply p cells count queue writing progress old frame shows inside =>
  have sends : s.replyBytes memory 0 = some (reply.frame layout) := by
    simp [replyBytes, writing, queue, frame, Except.toOption, shows]
  have stands : s.progress[0]? = some count := by simp [progress]
  by_cases whole : count = (reply.frame layout).length
  · refine ⟨.session (.writeOk 0), s.withSession { s.session with
      writeMsgs := []
      writing := [] } (s.progress.eraseIdx 0), ?_, ?_, trivial⟩
    · simp [machine, RpcSystem.step, stepSession, sends, stands, whole, LinkSession.step, writing,
        LinkSession.handleWrite, queue]
    · intro other
      cases other
  · have more : count + 1 ≤ (reply.frame layout).length := by omega
    have room : 0 < 1 ∧ count + 1 ≤ (reply.frame layout).length := ⟨Nat.one_pos, more⟩
    have taken : s.sendReply memory 0 1 = some { s with
        progress := s.progress.set 0 (count + 1)
        toClient := s.toClient ++ ((reply.frame layout).drop count).take 1 } := by
      simp only [RpcSystem.sendReply, sends, stands, Option.bind_eq_bind, Option.bind_some,
        if_pos room, Option.pure_def]
    exact ⟨.sendReply 0 1, _, taken, trivial, trivial⟩

theorem Returning.unqueued (returning : Returning layout memory s replies sent)
    (quiet : s.session.writing = []) : s.session.writeMsgs = [] := by
  cases returning with
  | idle replies queue => exact queue
  | busy earlier reply p cells count queue writing => cases writing.symm.trans quiet

/-- When all requests have arrived and no reply is queued, the session reads on
until it has read them all. -/
theorem Serving.read_ready (serving : Serving layout callFun requests reads s)
    (results : ResultsSound callFun) (going : s.session.reading ≠ .stopped)
    (sent : ∀ m ∈ s.client.loop.handed, s.client.unsent m = [])
    (arrived : s.arrived = s.client.wire.length) (quiet : s.session.writeMsgs = []) :
    s.session.reading = .head ∧ s.session.input = [] ∨ Ready layout callFun memory s := by
  obtain ⟨done, current, left, split, decoding⟩ := serving.arrived sent arrived
  by_cases more : current.toList ++ left = []
  · left
    obtain ⟨finished, nothing⟩ := List.append_eq_nil_iff.mp more
    have between : current = none := by simpa using finished
    subst between
    subst nothing
    have position := decoding.position
    rw [split] at position
    cases decoding.phase with
    | stopped _ reading => exact absurd reading going
    | head reading => exact ⟨reading, by simpa using position⟩
  · right
    rw [split] at decoding
    obtain ⟨session, taken⟩ := decoding.continues results.fit rfl going more
    refine ⟨.session .readOk, s.withSession session s.progress, ?_, fun _ _ _ _ => quiet, trivial⟩
    simp [machine, RpcSystem.step, stepSession, LinkSession.step, taken]

theorem Delivering.receive_ready
    (delivering : Delivering layout callFun memory requests reads taken stage left s)
    (connected : s.client.loop.link.connected = true) {op : Operation Receive}
    (start : s.client.loop.link.reads[0]? = some op) (live : op.state = .live)
    (enough : ClientLoop.wanted op.what ≤ s.toClient.length) : Ready layout callFun memory s := by
  have length : (s.toClient.take (ClientLoop.wanted op.what)).length =
      ClientLoop.wanted op.what := List.length_take_of_le enough
  obtain ⟨after, stepped⟩ := Option.isSome_iff_exists.mp (ClientLoop.received_isSome
    delivering.reading start live connected length ((List.take_prefix _ _).trans delivering.comes))
  let inner := ClientLoop.Event.received 0 (s.toClient.take (ClientLoop.wanted op.what))
  refine ⟨.receive 0, { s with
    client := s.client.follow (s.client.toOwningClient.after inner after)
    toClient := s.toClient.drop (ClientLoop.wanted op.what) }, ?_, trivial, trivial⟩
  simp [inner, machine, RpcSystem.step, RpcSystem.receive, start, enough, WireClient.step,
    WireClient.mayHappen, OwningClient.step, stepped, OwningClient.after]

theorem Delivering.read_ready
    (delivering : Delivering layout callFun memory requests reads taken stage left s)
    (connected : s.client.loop.link.connected = true) (settled : s.client.loop.link.connects = [])
    (quiet : s.session.writing = []) :
    s.toClient = [] ∧ (∀ op ∈ s.client.loop.link.reads, op.state = .live) ∨
      Ready layout callFun memory s := by
  have comes := delivering.all_sent quiet
  have handled : ∀ {op : Operation Receive}, s.client.loop.link.reads = [op] → op.state = .done →
      Ready layout callFun memory s := by
    intro op alone done
    refine ready_of_client (.handleRead 0 false) rfl rfl rfl
      (OwningClient.keepsSent_of_quiet rfl) ?_
    exact ClientLoop.handleRead_isSome delivering.reading delivering.built (by rw [alone]; rfl) done
      delivering.answering.serving.requesting.lasts.opened
  cases delivering.reading with
  | unconnected one none =>
    rw [settled] at one
    cases one
  | reading op _ alone stands =>
  cases stands with
  | headed r conn => exact .inr (handled alone rfl)
  | filled r p length conn => exact .inr (handled alone rfl)
  | awaiting t conn =>
    cases left with
    | nil =>
      refine .inl ⟨by simpa [Stage.rest] using comes, ?_⟩
      rw [alone]
      intro op member
      cases List.mem_singleton.mp member
      rfl
    | cons r rest =>
      refine .inr (delivering.receive_ready connected (by rw [alone]; rfl) rfl ?_)
      rw [comes]
      simp only [ClientLoop.wanted, Stage.rest, List.nil_append, List.flatMap_cons, Reply.frame,
        List.length_append, RpcStructHead.length_data]
      omega
  | filling r p length conn target expects wide =>
    refine .inr (delivering.receive_ready connected (by rw [alone]; rfl) rfl ?_)
    rw [comes, wide, expects.asked, Stage.rest, List.length_append]
    exact Nat.le_add_right _ _

/-- Nothing is under way, and neither a call of `write` nor a posted handler is
left that might hand over more. -/
structure Finished (callFun : Option CallbackFun) (s : RpcSystem) : Prop where
  settled : Settled s
  complete : Complete callFun s
  writers : s.client.loop.writers = []
  posted : s.client.loop.posted = []

/-- Whatever state a connection is in: nothing is left to deliver, or some of it can be. -/
theorem Moving.ready (moving : Moving layout callFun memory s) (results : ResultsSound callFun) :
    Finished callFun s ∨ Ready layout callFun memory s := by
  obtain ⟨_, _, _, _, _, delivering⟩ := moving.delivering
  have serving := delivering.answering.serving
  by_contra stuck
  obtain ⟨unfinished, unready⟩ := not_or.mp stuck
  have client : ¬ (s.client.loop.writers ≠ [] ∨ s.client.loop.link.connects ≠ []) :=
    fun busy => unready (moving.client_ready busy)
  simp only [not_or, not_not] at client
  have writes : ¬ _ := fun busy => unready (moving.write_ready client.2 busy)
  simp only [not_or, not_exists, not_and, not_not] at writes
  have arrived : s.arrived = s.client.wire.length := by
    by_contra busy
    exact unready (serving.arrive_ready busy)
  have writing : s.session.writing = [] := by
    by_contra busy
    exact unready (delivering.answering.returning.ready busy)
  have queue := delivering.answering.returning.unqueued writing
  obtain ⟨reading, input⟩ :=
    (serving.read_ready results moving.going writes.1 arrived queue).resolve_right unready
  obtain ⟨received, handled⟩ :=
    (delivering.read_ready (moving.connected client.2) client.2 writing).resolve_right unready
  have posted : s.client.loop.posted = [] := by
    by_contra busy
    exact unready (moving.posted_ready writes.2 busy)
  have settled : Settled s := ⟨writes.1, arrived, input, reading, writing, received, handled⟩
  exact unfinished ⟨settled, delivering.complete settled, client.1, posted⟩

/-- So it is behind every run whose replies leave one at a time. -/
theorem moving_of_run (layout : IntLayout) (callFun : Option CallbackFun)
    (memory : Memory) (results : ResultsSound callFun) (csq : ClientSendQueue)
    {schedule : List Event} {s : RpcSystem}
    (reached : (machine layout callFun memory).run (start csq) schedule = some s)
    (guarded : (machine layout callFun memory).AllSteps LockStep (start csq) schedule)
    (few : (schedule.map Event.writes).sum < 2 ^ 32) :
    Moving layout callFun memory s ∧ s.asked.length < 2 ^ 32 := by
  have moving : s.asked.length < 2 ^ 32 → Moving layout callFun memory s := by
    refine Machine.run_invariant (fun s => s.asked.length < 2 ^ 32 →
      Moving layout callFun memory s) LockStep ?_ (fun _ => .initial layout callFun memory csq)
      guarded reached
    intro before event after held taken lockStep few
    have transition := transition_of_step taken
    have fewer : before.asked.length < 2 ^ 32 :=
      Nat.lt_of_le_of_lt (by rw [asked_step transition]; exact Nat.le_add_right _ _) few
    exact (held fewer).step results transition lockStep fewer
  have asked := asked_few reached few
  exact ⟨moving asked, asked⟩

/-- What is under way on a connection that keeps moving comes to its end. -/
theorem Moving.finishes (moving : Moving layout callFun memory s) (results : ResultsSound callFun)
    (few : s.asked.length < 2 ^ 32) :
    (machine layout callFun memory).Finishes Delivers Rests (Finished callFun) s := by
  have order : WellFounded (Prod.Lex (· < ·) (· < ·) : Nat × Nat → Nat × Nat → Prop) :=
    WellFounded.prod_lex wellFounded_lt wellFounded_lt
  refine Machine.finishes_of_measure
    (fun s => Moving layout callFun memory s ∧ s.asked.length < 2 ^ 32) order
    (fun s => (s.requestWork, s.replyWork)) ?_ ?_ ?_ ⟨moving, few⟩
  · intro before event after ⟨moving, asked⟩ taken delivers
    have transition := transition_of_step taken
    refine ⟨?_, moving.step results transition delivers.1 asked, ?_⟩
    · rcases moving.lowers results transition delivers asked with less | ⟨same, less⟩
      · exact .left _ _ less
      · rw [same]
        exact .right _ less
    · rw [asked_step transition, delivers.writes]
      exact asked
  · intro before event after ⟨moving, asked⟩ taken rests
    have transition := transition_of_step taken
    obtain ⟨requests, replies⟩ := moving.leaves transition rests
    refine ⟨by rw [requests, replies], moving.step results transition rests.1 asked, ?_⟩
    rw [asked_step transition, rests.writes]
    exact asked
  · intro s ⟨moving, _⟩
    exact moving.ready results

/-- Behind any such run everything handed over gets delivered. However callers of
`read`, timers and the network interleave, no run without new calls of `write`
delivers forever; deliveries alone lead to a state with nothing under way; and a
run that can deliver no more has come to one: all requests handed over have been
executed and as many replies taken. -/
theorem settles_of_run (layout : IntLayout) (callFun : Option CallbackFun)
    (memory : Memory) (results : ResultsSound callFun) (csq : ClientSendQueue)
    {schedule : List Event} {s : RpcSystem}
    (reached : (machine layout callFun memory).run (start csq) schedule = some s)
    (guarded : (machine layout callFun memory).AllSteps LockStep (start csq) schedule)
    (few : (schedule.map Event.writes).sum < 2 ^ 32) :
    (machine layout callFun memory).Finishes Delivers Rests (Finished callFun) s := by
  obtain ⟨moving, asked⟩ := moving_of_run layout callFun memory results csq reached guarded few
  exact moving.finishes results asked

/-- Some run whose replies leave one at a time leads to the connection. -/
def Reached (layout : IntLayout) (callFun : Option CallbackFun) (memory : Memory)
    (s : RpcSystem) : Prop :=
  ∃ csq schedule, (machine layout callFun memory).run (start csq) schedule = some s ∧
    (machine layout callFun memory).AllSteps LockStep (start csq) schedule

/-- What its server promises a connection: requests are executed once and in order,
what a caller finds answers its own request, and what was handed over gets delivered. -/
structure Serviced (layout : IntLayout) (callFun : Option CallbackFun)
    (memory : Memory) (s : RpcSystem) : Prop where
  executed : Executed callFun s
  answered : Answered callFun s
  settles : (machine layout callFun memory).Finishes Delivers Rests (Finished callFun) s

theorem Reached.initial (layout : IntLayout) (callFun : Option CallbackFun)
    (memory : Memory) (csq : ClientSendQueue) :
    Reached layout callFun memory (start csq) := ⟨csq, [], rfl, trivial⟩

theorem Reached.step (reached : Reached layout callFun memory s)
    (taken : (machine layout callFun memory).step s event = some next)
    (guarded : LockStep s event next) : Reached layout callFun memory next := by
  obtain ⟨csq, schedule, before, all⟩ := reached
  exact ⟨csq, schedule ++ [event], Machine.run_concat_eq_some.mpr ⟨s, before, taken⟩,
    all.concat before taken guarded⟩

theorem Reached.moving (reached : Reached layout callFun memory s) (results : ResultsSound callFun)
    (few : s.asked.length < 2 ^ 32) : Moving layout callFun memory s := by
  obtain ⟨csq, schedule, before, guarded⟩ := reached
  have writes : (schedule.map Event.writes).sum < 2 ^ 32 := by
    rw [asked_length before] at few
    exact Nat.lt_of_le_of_lt (Nat.le_add_left _ _) few
  exact (moving_of_run layout callFun memory results csq before guarded writes).1

theorem Reached.serviced (reached : Reached layout callFun memory s)
    (results : ResultsSound callFun) (few : s.asked.length < 2 ^ 32) :
    Serviced layout callFun memory s := by
  have moving := reached.moving results few
  obtain ⟨_, _, _, _, _, delivering⟩ := moving.delivering
  exact ⟨delivering.answering.serving.executed few, delivering.right few,
    moving.finishes results few⟩

/-- A request whose header has arrived and whose payload has not been sent. -/
def halfSent : List Event := oneRequest.take 11

theorem halfSent_settles :
    ∃ s, (machine .littleEndian (some LinkSession.callP) noMemory).run (start .on) halfSent =
        some s ∧ s.session.calls.length = 0 ∧
      (machine .littleEndian (some LinkSession.callP) noMemory).Finishes Delivers Rests
        (Finished (some LinkSession.callP)) s := by
  have runs : ((machine .littleEndian (some LinkSession.callP) noMemory).run (start .on)
      halfSent).map (fun s => s.session.calls.length) = some 0 := by
    decide +kernel
  obtain ⟨s, reached, calls⟩ := Option.map_eq_some_iff.mp runs
  exact ⟨s, reached, calls, settles_of_run .littleEndian (some LinkSession.callP) noMemory
    callP_sound .on reached (by decide +kernel) (by decide)⟩

end RpcSystem

end RpcLoop
