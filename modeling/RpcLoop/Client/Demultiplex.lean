import RpcLoop.Client.Entries
import RpcLoop.Client.Request

/-! Replies on their way to their entries. The bytes of a connection are taken
in the pieces the read loop asks for: a header, then a payload, then a header
again, whether or not somebody waits for the reply. -/

namespace RpcLoop

open Foundation Asio Shared

/-- A reply frame as the server sends it; its body has an `int` frame length. -/
structure Reply where
  reqId : Int32
  metaPart : List UInt8
  body : List UInt8
  metaLen : metaPart.length = 8
  fits : body.length + 20 ≤ 2 ^ 31 - 1

namespace Reply

def head (r : Reply) : RpcStructHead := requestHead r.reqId (Int32.ofNat r.body.length)

/-- The part of a frame that is read after its header. -/
def payload (r : Reply) : List UInt8 := r.metaPart ++ r.body

def frame (layout : IntLayout) (r : Reply) : List UInt8 := r.head.data layout ++ r.payload

theorem toInt_bodyLen (r : Reply) : r.head.bodyLen.toInt = r.body.length := by
  have fits := r.fits
  exact Int32.toInt_ofNat_of_lt (by omega)

theorem length_payload (r : Reply) : r.payload.length = 8 + r.body.length := by
  rw [payload, List.length_append, r.metaLen]

/-- The last of some replies to a request. -/
def last? : List Reply → Int32 → Option Reply
  | [], _ => none
  | r :: rest, reqId => (last? rest reqId).or (if r.reqId = reqId then some r else none)

end Reply

/-- The entry has been given a reply: its status, its header and its contents. -/
structure RpcStruct.Holds (r : Reply) (m : RpcStruct) : Prop where
  status : m.status = .readOk
  head : m.headInfo = r.head
  metaPart : m.cells m.metaOffset m.headInfo.metaLen = r.metaPart.map some
  body : m.cells m.bodyOffset m.headInfo.bodyLen = r.body.map some

/-- The link with a read just started as its only one. -/
def Link.onlyRead (l : Link) (what : Receive) : Link :=
  { l with reads := [{ what := what, conn := l.attempt, state := .live }] }

namespace ClientLoop

/-- How many bytes an outstanding read asks for. -/
def wanted : Receive → Nat
  | .head _ => 12
  | .msg _ length => CInt.toSizeT length

/-- The outstanding read takes its bytes from the stream, and its handler runs. -/
def readOnce (layout : IntLayout) (s : ClientLoop) (stream : List UInt8) :
    Option (ClientLoop × List UInt8) := do
  let op ← s.link.reads.head?
  let next ← (machine layout).run s [.received 0 (stream.take (wanted op.what)),
    .handleRead 0 false]
  return (next, stream.drop (wanted op.what))

/-- A number of reads, one after the other. -/
def readTimes (layout : IntLayout) : Nat → ClientLoop → List UInt8 →
    Option (ClientLoop × List UInt8)
  | 0, s, stream => some (s, stream)
  | times + 1, s, stream =>
    (readOnce layout s stream).bind fun next => readTimes layout times next.1 next.2

private theorem readTimes_add (layout : IntLayout) (first second : Nat) (s : ClientLoop)
    (stream : List UInt8) :
    readTimes layout (first + second) s stream =
      (readTimes layout first s stream).bind fun next => readTimes layout second next.1 next.2 := by
  induction first generalizing s stream with
  | zero => simp [readTimes]
  | succ first ih =>
    rw [Nat.succ_add]
    simp only [readTimes, Option.bind_assoc, ih]

/-- A connected client that waits for a header, with entries made by `newMsgBuf`. -/
structure Receiving (s : ClientLoop) : Prop where
  built : EntriesBuilt s
  opened : s.link.opened = true
  connected : s.link.connected = true
  reads : ∃ t conn, s.link.reads = [{ what := .head t, conn := conn, state := .live }]

variable {layout : IntLayout} {s next : ClientLoop}

/-- The only read is over. -/
def readEnded (s : ClientLoop) : ClientLoop := { s with link := { s.link with reads := [] } }

/-- The rest of the handler of the only read, on an open socket. -/
def afterRead (layout : IntLayout) (s : ClientLoop) : Receive → Option ClientLoop
  | .head t => s.handleReadHeader layout t false
  | .msg p _ => s.handleReadMsg layout p false

theorem invokeRead_eq {op : Operation Receive} {what : Receive} (reads : s.link.reads = [op])
    (kind : op.what = what) (done : op.state = .done) (opened : s.link.opened = true) :
    s.invokeRead layout 0 false =
      afterRead layout s.readEnded what := by
  have found : s.link.reads[0]? = some op := by simp [reads]
  have left : s.link.reads.eraseIdx 0 = [] := by simp [reads]
  have delivers : op.Delivers false := by simp [Operation.Delivers, done]
  have still : ({ s.link with reads := [] } : Link).opened = true := opened
  simp only [invokeRead, found, left, delivers, if_true, ifOpen, Link.isOpen_of_opened still,
    Option.bind_eq_bind, Option.bind_some, Bool.true_eq_false, if_false]
  rw [kind]
  cases what <;> rfl

/-- A read takes what it asks for, then its handler runs. -/
theorem readOnce_eq {op : Operation Receive} {middle : ClientLoop} {bytes : List UInt8}
    (rest : List UInt8) (reads : s.link.reads = [op]) (asked : wanted op.what = bytes.length)
    (completed : s.completeRead layout 0 bytes = some middle) :
    readOnce layout s (bytes ++ rest) = (middle.invokeRead layout 0 false).map (·, rest) := by
  simp only [readOnce, reads, List.head?_cons, Option.bind_eq_bind, Option.bind_some, asked,
    List.take_left, List.drop_left, Machine.run_cons, Machine.run_nil, machine, step, completed,
    Option.pure_def]
  cases middle.invokeRead layout 0 false <;> rfl

private theorem readOnce_head (layout : IntLayout) {t : RpcStructHead} {conn : Nat}
    {bytes : List UInt8}
    (rest : List UInt8)
    (reads : s.link.reads = [{ what := .head t, conn := conn, state := .live }])
    (opened : s.link.opened = true) (connected : s.link.connected = true)
    (length : bytes.length = 12) :
    readOnce layout s (bytes ++ rest) =
      (afterRead layout s.readEnded
        (.head (.ofData layout bytes))).map (·, rest) := by
  have completed : s.completeRead layout 0 bytes = some { s with link := { s.link with
      reads := [{ what := .head (.ofData layout bytes), conn := conn, state := .done }] } } := by
    simp [completeRead, reads, connected, length]
  rw [readOnce_eq rest reads length.symm completed]
  refine congrArg (Option.map (·, rest)) (invokeRead_eq rfl rfl rfl ?_)
  exact opened

private theorem readOnce_msg (layout : IntLayout) {p : Ptr} {wide : Int32} {conn : Nat}
    {bytes : List UInt8} (rest : List UInt8)
    (reads : s.link.reads = [{ what := .msg p wide, conn := conn, state := .live }])
    (opened : s.link.opened = true) (connected : s.link.connected = true)
    (length : wide.toInt = bytes.length) {filled : RpcStruct}
    (received : (s.entries p).receive bytes wide = .ok filled) :
    readOnce layout s (bytes ++ rest) =
      (afterRead layout (s.store p filled).readEnded
        (.msg p wide)).map (·, rest) := by
  have nonneg : 0 ≤ wide ∧ bytes.length = wide.toNatClampNeg := by
    rw [CInt.nonneg_iff, CInt.toNatClampNeg_eq]
    omega
  have asked : wanted (.msg p wide) = bytes.length := by
    have same := CInt.toSizeT_of_nonneg (CInt.nonneg_iff.mp nonneg.1)
    simp only [wanted]
    omega
  have completed : s.completeRead layout 0 bytes = some { s.store p filled with
      link := { s.link with
        reads := [{ what := .msg p wide, conn := conn, state := .done }] } } := by
    simp [completeRead, reads, connected, nonneg, received, Except.toOption]
  rw [readOnce_eq rest reads asked completed]
  refine congrArg (Option.map (·, rest)) (invokeRead_eq rfl rfl rfl ?_)
  exact opened

theorem doReadMsg_onlyRead {p : Ptr} {ready : RpcStruct} (opened : s.link.opened = true)
    (none : s.link.reads = []) (buffer : (s.entries p).recvMsgBuff layout = .ok ready) :
    s.doReadMsg layout p =
      some { s.store p ready with link := s.link.onlyRead (.msg p ready.recvMsgLen) } := by
  rw [doReadMsg_of_opened opened buffer, none]
  rfl

/-- The header of a reply somebody waits for leads to a read into the entry. -/
theorem afterRead_known (head : RpcStructHead) {p : Ptr} {known ready : RpcStruct}
    (opened : s.link.opened = true) (found : s.recvMsgMap[head.reqId]? = some p)
    (headed : (s.entries p).setHead layout head = .ok known)
    (buffer : known.recvMsgBuff layout = .ok ready) :
    afterRead layout s.readEnded (.head head) =
      some { s.store p ready with link := s.link.onlyRead (.msg p ready.recvMsgLen) } := by
  have stored : ((s.readEnded.store p known).entries p).recvMsgBuff layout = .ok ready := by
    simpa [store] using buffer
  have started : (s.readEnded.store p known).doReadMsg layout p = _ :=
    doReadMsg_onlyRead opened rfl stored
  rw [store_store] at started
  have present : s.readEnded.recvMsgMap[head.reqId]? = some p := found
  have handled : (s.readEnded.entries p).setHead layout head = .ok known := headed
  simp only [afterRead, handleReadHeader, Bool.false_eq_true, if_false]
  rw [present]
  simp only [handled, Except.toOption, Option.bind_eq_bind, Option.bind_some]
  exact started

/-- Any other header leads to a read into a new object. -/
theorem afterRead_unknown (head : RpcStructHead) {ready : RpcStruct}
    (opened : s.link.opened = true) (absent : s.recvMsgMap[head.reqId]? = none)
    (buffer : (RpcStruct.ofHead head).recvMsgBuff layout = .ok ready) :
    afterRead layout s.readEnded (.head head) =
      some { s.store s.allocated ready with
        allocated := s.allocated + 1
        link := s.link.onlyRead (.msg s.allocated ready.recvMsgLen) } := by
  have missing : s.readEnded.recvMsgMap[head.reqId]? = none := absent
  have stored : ((s.readEnded.store s.allocated (.ofHead head)).entries s.allocated).recvMsgBuff
      layout = .ok ready := by
    simpa [store] using buffer
  have started : { s.readEnded.store s.allocated (.ofHead head) with
      allocated := s.allocated + 1 }.doReadMsg layout s.allocated = _ :=
    doReadMsg_onlyRead opened rfl stored
  have same : { s.readEnded.store s.allocated (.ofHead head) with
      allocated := s.allocated + 1 }.store s.allocated ready =
        { s.readEnded.store s.allocated ready with allocated := s.allocated + 1 } := by
    simp [store]
  rw [same] at started
  simp only [afterRead, handleReadHeader, Bool.false_eq_true, if_false]
  rw [missing]
  exact started

/-- A payload completes its object, and a header is awaited again. -/
theorem afterRead_msg {p : Ptr} {wide : Int32} {ready : RpcStruct}
    (opened : s.link.opened = true) (body : (s.entries p).body layout = .ok ready) :
    afterRead layout s.readEnded (.msg p wide) =
      some { s.store p (ready.setStatus .readOk) with
        answered := p :: s.answered
        link := s.link.onlyRead (.head {}) } := by
  have stored : (s.readEnded.entries p).body layout = .ok ready := body
  have still : s.readEnded.link.opened = true := opened
  have reading : s.readEnded.link.asyncRead (.head {}) = some (s.link.onlyRead (.head {})) :=
    Link.asyncRead_of_opened still _
  simp only [afterRead, handleReadMsg, Bool.false_eq_true, if_false, stored, Except.toOption,
    Option.bind_eq_bind, Option.bind_some, doReadHead]
  change (s.readEnded.link.asyncRead (.head {})).bind _ = _
  rw [reading]
  rfl

/-- Between the header and the payload of a reply: an object that takes the
payload, which is the entry of the reply's id if there is one. -/
structure Awaiting (layout : IntLayout) (r : Reply) (p : Ptr) (s middle : ClientLoop) : Prop where
  link : middle.link = s.link.onlyRead (.msg p (middle.entries p).recvMsgLen)
  map : middle.recvMsgMap = s.recvMsgMap
  other : ∀ q, q ≠ p → middle.entries q = s.entries q
  owner : ∀ (reqId : Int32) (q : Ptr), s.recvMsgMap[reqId]? = some q → (q = p ↔ reqId = r.reqId)
  asked : (middle.entries p).recvMsgLen.toInt = r.payload.length
  fills : ∃ filled block,
    (middle.entries p).receive r.payload (middle.entries p).recvMsgLen = .ok filled ∧
      filled.headInfo = r.head ∧
      RpcStruct.Filled layout filled block (r.metaPart.map some) (r.body.map some)

private theorem readOnce_reply (layout : IntLayout) (receiving : Receiving s) (r : Reply)
    (rest : List UInt8) :
    ∃ p middle, readOnce layout s (r.head.data layout ++ rest) = some (middle, rest) ∧
      Awaiting layout r p s middle := by
  have bodyLen := r.toInt_bodyLen
  have fits := r.fits
  have length := r.length_payload
  have eight : r.head.metaLen.toInt = 8 := rfl
  have metaPart : r.payload.take 8 = r.metaPart := by
    rw [Reply.payload, ← r.metaLen, List.take_left]
  have body : r.payload.drop 8 = r.body := by
    rw [Reply.payload, ← r.metaLen, List.drop_left]
  obtain ⟨t, conn, reads⟩ := receiving.reads
  have header : readOnce layout s (r.head.data layout ++ rest) =
      (afterRead layout s.readEnded (.head r.head)).map (·, rest) := by
    have read := readOnce_head layout rest reads receiving.opened receiving.connected
      (RpcStructHead.length_data layout r.head)
    rwa [RpcStructHead.ofData_data] at read
  cases found : s.recvMsgMap[r.reqId]? with
  | some p =>
    obtain ⟨known, ready, filled, block, headed, buffer, asked, taken, same, whole⟩ :=
      (receiving.built.grown _ _ found).receive layout r.head r.payload rfl (by omega)
        (by omega) (by omega)
    rw [metaPart, body] at whole
    rw [afterRead_known r.head receiving.opened found headed buffer] at header
    refine ⟨p, _, header, ⟨?_, rfl, ?_, ?_, ?_, filled, block, ?_, by rw [same], whole⟩⟩
    · simp [store]
    · intro q different
      simp [store, different]
    · intro reqId q present
      constructor
      · rintro rfl
        exact receiving.built.apart _ _ _ present found
      · rintro rfl
        exact Option.some.inj (present.symm.trans found)
    · simpa [store] using asked
    · simpa [store] using taken
  | none =>
    obtain ⟨ready, filled, block, buffer, asked, taken, same, whole⟩ :=
      RpcStruct.receive_eq layout r.head r.payload (by omega) (by omega) (by omega) (by omega)
    have parts : RpcStruct.Filled layout filled block ((r.payload.take 8).map some)
        ((r.payload.drop 8).map some) := whole
    rw [metaPart, body] at parts
    rw [afterRead_unknown r.head receiving.opened found buffer] at header
    refine ⟨s.allocated, _, header, ⟨?_, rfl, ?_, ?_, ?_, filled, block, ?_, same, parts⟩⟩
    · simp [store]
    · intro q different
      simp [store, different]
    · intro reqId q present
      constructor
      · intro fresh
        exact absurd fresh (Nat.ne_of_lt (receiving.built.ptrs.map _ _ present))
      · rintro rfl
        cases found.symm.trans present
    · simpa [store] using asked
    · simpa [store] using taken

/-- A reply has reached its entry, and nothing else has changed in the map. -/
structure Delivered (r : Reply) (s next : ClientLoop) : Prop where
  map : next.recvMsgMap = s.recvMsgMap
  own : ∀ p, s.recvMsgMap[r.reqId]? = some p → (next.entries p).Holds r
  other : ∀ (reqId : Int32) (p : Ptr), s.recvMsgMap[reqId]? = some p → reqId ≠ r.reqId →
    next.entries p = s.entries p

theorem Awaiting.delivers {r : Reply} {p : Ptr} {middle : ClientLoop}
    (awaiting : Awaiting layout r p s middle) (opened : s.link.opened = true)
    (connected : s.link.connected = true) (rest : List UInt8) :
    ∃ next, readOnce layout middle (r.payload ++ rest) = some (next, rest) ∧
      next.link = s.link.onlyRead (.head {}) ∧ Delivered r s next := by
  obtain ⟨filled, block, taken, head, whole⟩ := awaiting.fills
  obtain ⟨fresh, body, again⟩ := whole.newData
  have reads : middle.link.reads = [_] := congrArg Link.reads awaiting.link
  have up : middle.link.opened = true := by rw [awaiting.link]; exact opened
  have there : middle.link.connected = true := by rw [awaiting.link]; exact connected
  have stored : ((middle.store p filled).entries p).body layout =
      .ok { filled with data := some fresh } := by
    simpa [store] using (show filled.body layout = _ from body)
  have still : (middle.store p filled).link.opened = true := up
  have read := readOnce_msg layout rest reads up there awaiting.asked taken
  rw [afterRead_msg still stored, store_store] at read
  refine ⟨_, read, ?_, awaiting.map, ?_, ?_⟩
  · change middle.link.onlyRead (.head {}) = _
    rw [awaiting.link]
    rfl
  · intro q present
    obtain rfl := (awaiting.owner _ _ present).mpr rfl
    have complete : (({ filled with data := some fresh } : RpcStruct).setStatus .readOk).Holds r :=
      ⟨rfl, head, again.cells.1, again.cells.2⟩
    simpa [store] using complete
  · intro reqId q present different
    have apart : q ≠ p := fun same => different ((awaiting.owner _ _ present).mp same)
    simpa [store, apart] using awaiting.other q apart

theorem EntriesBuilt.readOnce {stream rest : List UInt8} (built : EntriesBuilt s)
    (read : readOnce layout s stream = some (next, rest)) : EntriesBuilt next := by
  simp only [ClientLoop.readOnce, Option.bind_eq_bind, Option.bind_eq_some_iff,
    Option.pure_def] at read
  obtain ⟨op, _, after, taken, same⟩ := read
  cases same
  refine Machine.run_invariant EntriesBuilt (fun _ _ _ => True) ?_ built ?_ taken
  · intro before event after held stepped _
    exact held.step (transition_of_step stepped)
  · exact Machine.allSteps_of_invariant (fun _ => True) (fun _ _ => ⟨trivial, trivial⟩) trivial _

private theorem readTimes_frame (layout : IntLayout) (receiving : Receiving s) (r : Reply)
    (rest : List UInt8) :
    ∃ next, readTimes layout 2 s (r.frame layout ++ rest) = some (next, rest) ∧
      Receiving next ∧ Delivered r s next := by
  obtain ⟨p, middle, header, awaiting⟩ := readOnce_reply layout receiving r (r.payload ++ rest)
  obtain ⟨next, payload, link, delivered⟩ :=
    awaiting.delivers receiving.opened receiving.connected rest
  have built := (receiving.built.readOnce header).readOnce payload
  refine ⟨next, ?_, ⟨built, ?_, ?_, {}, s.link.attempt, ?_⟩, delivered⟩
  · rw [Reply.frame, List.append_assoc]
    simp only [readTimes, header, payload, Option.bind_some]
  · rw [link]
    exact receiving.opened
  · rw [link]
    exact receiving.connected
  · rw [link]
    rfl

/-- What a sequence of replies has done to the map and its entries. -/
structure Demultiplexed (replies : List Reply) (s next : ClientLoop) : Prop where
  map : next.recvMsgMap = s.recvMsgMap
  entry : ∀ (reqId : Int32) (p : Ptr), s.recvMsgMap[reqId]? = some p →
    match Reply.last? replies reqId with
    | some r => (next.entries p).Holds r
    | none => next.entries p = s.entries p

theorem Demultiplexed.cons {r : Reply} {replies : List Reply} {middle : ClientLoop}
    (first : Delivered r s middle) (rest : Demultiplexed replies middle next) :
    Demultiplexed (r :: replies) s next where
  map := rest.map.trans first.map
  entry reqId p present := by
    have later := rest.entry reqId p (by rw [first.map]; exact present)
    simp only [Reply.last?]
    cases last : Reply.last? replies reqId with
    | some other =>
      rw [last] at later
      exact later
    | none =>
      rw [last] at later
      by_cases same : r.reqId = reqId
      · subst same
        simp only [if_true, Option.none_or]
        rw [later]
        exact first.own p present
      · simp only [same, if_false, Option.none_or]
        exact later.trans (first.other reqId p present fun equal => same equal.symm)

/-- Any replies to anybody: the read loop takes exactly their bytes and waits for
the next header; every entry holds the last reply to its id, the others are as
they were, and so is the map. -/
theorem readTimes_replies (layout : IntLayout) (receiving : Receiving s) (replies : List Reply)
    (rest : List UInt8) :
    ∃ next, readTimes layout (2 * replies.length) s (replies.flatMap (Reply.frame layout) ++ rest) =
        some (next, rest) ∧
      Receiving next ∧ Demultiplexed replies s next := by
  induction replies generalizing s with
  | nil => exact ⟨s, rfl, receiving, rfl, fun _ _ _ => rfl⟩
  | cons r replies ih =>
    obtain ⟨middle, first, still, delivered⟩ := readTimes_frame layout receiving r
      (replies.flatMap (Reply.frame layout) ++ rest)
    obtain ⟨next, later, again, done⟩ := ih still
    refine ⟨next, ?_, again, .cons delivered done⟩
    have count : 2 * (r :: replies).length = 2 + 2 * replies.length := by
      rw [List.length_cons, Nat.mul_add_one, Nat.add_comm]
    rw [List.flatMap_cons, List.append_assoc, count, readTimes_add, first]
    exact later

/-- A call registers its reply before the connection is established. -/
def oneCall : List Event :=
  [.beginWrite [some 7] 1, .push 0, .insert 0, .connected 0, .handleConnect 0 false]

/-- A connected client with one call that waits for its reply. -/
def oneWaiting : ClientLoop := ((machine .littleEndian).run (start .off) oneCall).getD (start .off)

/-- A reply to the call, one that nobody waits for, and the first one's repetition. -/
def threeReplies : List Reply :=
  [{ reqId := 1, metaPart := metaBytes, body := [5], metaLen := rfl, fits := by decide },
    { reqId := 9, metaPart := metaBytes, body := [], metaLen := rfl, fits := by decide },
    { reqId := 1, metaPart := metaBytes, body := [6, 7], metaLen := rfl, fits := by decide }]

private theorem oneWaiting_receiving : Receiving oneWaiting where
  built := by
    have reached : (machine .littleEndian).Reaches (start .off) oneWaiting := ⟨oneCall, rfl⟩
    exact .reachable .off reached
  opened := rfl
  connected := rfl
  reads := ⟨{}, 1, rfl⟩

theorem threeReplies_demultiplexed :
    oneWaiting.recvMsgMap[(1 : Int32)]? = some 1 ∧
      ∃ next, readTimes .littleEndian (2 * 3) oneWaiting
          (threeReplies.flatMap (Reply.frame .littleEndian) ++ []) = some (next, []) ∧
        Receiving next ∧ Demultiplexed threeReplies oneWaiting next :=
  ⟨by decide +kernel, readTimes_replies .littleEndian oneWaiting_receiving threeReplies []⟩

end ClientLoop

end RpcLoop
