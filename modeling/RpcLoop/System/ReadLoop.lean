import RpcLoop.System.Replies

/-! Where the client's read loop stands in the stream of replies. It has one read
at a time, for a header or for the payload behind it, and only the end of a
payload gives an entry its answer. -/

namespace RpcLoop

open Foundation Asio Shared

theorem Reply.ofHead_grown (r : Reply) : (RpcStruct.ofHead r.head).Grown :=
  RpcStruct.Grown.new.same rfl rfl rfl rfl fun block found => by cases found

namespace RpcStruct

/-- Two objects with the same header and buffer. -/
def SameBuffer (m other : RpcStruct) : Prop :=
  other = { m with status := other.status, timer := other.timer, eraseFlag := other.eraseFlag }

/-- The buffer is ready for the payload of a reply. -/
structure Expects (layout : IntLayout) (r : Reply) (m : RpcStruct) : Prop where
  head : m.headInfo = r.head
  metaOffset : m.metaOffset = 12
  bodyOffset : m.bodyOffset = 20
  whole : ∃ block, Whole layout m block

/-- The object holds the header and the payload of a reply. -/
structure Carried (layout : IntLayout) (r : Reply) (m : RpcStruct) : Prop where
  head : m.headInfo = r.head
  filled : ∃ block, Filled layout m block (r.metaPart.map some) (r.body.map some)

variable {layout : IntLayout} {r : Reply} {m other : RpcStruct}

theorem SameBuffer.refl (m : RpcStruct) : SameBuffer m m := rfl

theorem SameBuffer.expects (same : SameBuffer m other) (expects : Expects layout r m) :
    Expects layout r other := by
  obtain ⟨block, whole⟩ := expects.whole
  rw [same]
  exact ⟨expects.head, expects.metaOffset, expects.bodyOffset, block,
    ⟨whole.data, whole.size, whole.covers, whole.header⟩, whole.headSize, whole.offset,
    whole.capacity, whole.fits, whole.body⟩

theorem SameBuffer.carried (same : SameBuffer m other) (carried : Carried layout r m) :
    Carried layout r other := by
  obtain ⟨block, filled⟩ := carried.filled
  rw [same]
  exact ⟨carried.head, block, ⟨⟨filled.data, filled.size, filled.covers, filled.header⟩,
    filled.headSize, filled.offset, filled.capacity, filled.fits, filled.body⟩, filled.metaOffset,
    filled.bodyOffset, filled.metaCells, filled.bodyCells⟩

theorem SameBuffer.holds (same : SameBuffer m other) (status : other.status = .readOk)
    (holds : Holds r m) : Holds r other := by
  refine ⟨status, ?_, ?_, ?_⟩
  · rw [same]
    exact holds.head
  · rw [same]
    exact holds.metaPart
  · rw [same]
    exact holds.body

/-- An object with the default offsets gets ready for the payload of a header. -/
theorem Grown.expects (grown : Grown m) (headed : m.headInfo = r.head)
    (called : m.newData layout = .ok other) : Expects layout r other := by
  have length := r.toInt_bodyLen
  have fits := r.fits
  have room := grown.room (by rw [headed]; omega)
  obtain ⟨pre, block, same, whole⟩ := newData_whole layout room (by rw [headed]; omega)
  cases same.symm.trans called
  exact ⟨headed, grown.metaOffset, grown.bodyOffset, block, whole⟩

/-- The payload of the header fits, and completes the object. -/
theorem Expects.fills (expects : Expects layout r m) :
    ∃ filled, m.receive r.payload m.recvMsgLen = .ok filled ∧ Carried layout r filled := by
  obtain ⟨block, whole⟩ := expects.whole
  have length := r.toInt_bodyLen
  have eight : r.head.metaLen.toInt = 8 := rfl
  have offset : m.bodyOffset.toInt = 12 + m.headInfo.metaLen.toInt := by
    rw [expects.bodyOffset, expects.head, eight]
    rfl
  obtain ⟨_, fresh, received, complete⟩ := whole.receive expects.metaOffset offset r.payload (by
    rw [expects.head, eight, r.length_payload]
    omega)
  have metaPart : r.payload.take 8 = r.metaPart := by
    rw [Reply.payload, ← r.metaLen, List.take_left]
  have body : r.payload.drop 8 = r.body := by
    rw [Reply.payload, ← r.metaLen, List.drop_left]
  have size : m.headInfo.metaLen.toInt.toNat = 8 := by
    rw [expects.head]
    rfl
  rw [size] at complete
  refine ⟨_, received, expects.head, fresh, ?_⟩
  rw [← metaPart, ← body]
  exact complete

theorem Expects.receive (expects : Expects layout r m) {filled : RpcStruct}
    (copied : m.receive r.payload m.recvMsgLen = .ok filled) : Carried layout r filled := by
  obtain ⟨_, received, carried⟩ := expects.fills
  cases received.symm.trans copied
  exact carried

theorem Expects.asked (expects : Expects layout r m) :
    ClientLoop.wanted (.msg p m.recvMsgLen) = r.payload.length := by
  have length := r.toInt_bodyLen
  have fits := r.fits
  have eight : r.head.metaLen.toInt = 8 := rfl
  have total : m.recvMsgLen.toInt = r.head.bodyLen.toInt + r.head.metaLen.toInt := by
    rw [recvMsgLen, expects.head]
    exact CInt.toInt_add _ _ (by omega) (by omega)
  have same : (CInt.toSizeT m.recvMsgLen : Int) = _ := CInt.toSizeT_of_nonneg (by omega)
  simp only [ClientLoop.wanted]
  rw [r.length_payload]
  omega

theorem Carried.holds (carried : Carried layout r m) {readMsg : RpcStruct}
    (body : m.body layout = .ok readMsg) : Holds r (readMsg.setStatus .readOk) := by
  obtain ⟨block, filled⟩ := carried.filled
  obtain ⟨fresh, again, whole⟩ := filled.newData
  cases again.symm.trans body
  exact ⟨rfl, carried.head, whole.cells.1, whole.cells.2⟩

end RpcStruct

namespace ClientLoop

variable {layout : IntLayout} {s next : ClientLoop} {event : Event} {taken : List Reply}

/-- Nothing is allocated twice, no entry gets a reply, and no old one is registered. -/
structure Calm (s next : ClientLoop) : Prop where
  allocated : s.allocated ≤ next.allocated
  buffer : ∀ p, p < s.allocated → RpcStruct.SameBuffer (s.entries p) (next.entries p)
  status : ∀ p, p < s.allocated → (next.entries p).status = .readOk →
    (s.entries p).status = .readOk
  registered : ∀ g ∈ next.registered,
    g ∈ s.registered ∨ s.allocated ≤ g.entry ∧ (next.entries g.entry).status ≠ .readOk
  answered : next.answered = s.answered

/-- And the read loop and the connects stay where they are. -/
structure Quiet (s next : ClientLoop) : Prop extends Calm s next where
  reads : next.link.reads = s.link.reads
  connects : next.link.connects.length = s.link.connects.length

theorem Calm.refl (s : ClientLoop) : Calm s s where
  allocated := Nat.le_refl _
  buffer _ _ := .refl _
  status _ _ same := same
  registered _ member := .inl member
  answered := rfl

theorem Calm.store {p : Ptr} {m : RpcStruct} (buffer : RpcStruct.SameBuffer (s.entries p) m)
    (status : m.status = .readOk → (s.entries p).status = .readOk) : Calm s (s.store p m) where
  allocated := Nat.le_refl _
  buffer q _ := by
    by_cases equal : q = p
    · subst equal
      simpa [ClientLoop.store] using buffer
    · simp [ClientLoop.store, equal, RpcStruct.SameBuffer]
  status q _ := by
    by_cases equal : q = p
    · subst equal
      simpa [ClientLoop.store] using status
    · simp [ClientLoop.store, equal]
  registered _ member := .inl member
  answered := rfl

theorem Calm.erases {erased : ClientLoop} (erases : Erases s erased) : Calm s erased where
  allocated := by rw [erases.rest]
  buffer p _ := by
    rw [RpcStruct.SameBuffer]
    rw [erases.entry p]
  status p _ same := by
    rw [erases.entry p] at same
    exact same
  registered g member := by
    rw [erases.rest] at member
    exact .inl member
  answered := by rw [erases.rest]

theorem Calm.insert (s : ClientLoop) (addr : Ptr) (id : Int32) :
    Calm s { s with
      entries := Function.update s.entries s.allocated (recvEntry id)
      allocated := s.allocated + 1
      registered := { addr := addr, reqId := id, entry := s.allocated } :: s.registered } where
  allocated := Nat.le_succ _
  buffer p old := by simp [Nat.ne_of_lt old, RpcStruct.SameBuffer]
  status p old := by simp [Nat.ne_of_lt old]
  registered g member := by
    rcases List.mem_cons.mp member with rfl | old
    · refine .inr ⟨Nat.le_refl _, ?_⟩
      simp [recvEntry, RpcStruct.new, RpcStruct.ofHead]
    · exact .inl old
  answered := rfl

/-- What neither reads nor connects is quiet, on a connection that lasts. -/
theorem quiet_of_transition (lasts : Lasting s) (transition : Transition layout s event next)
    (whole : RpcSystem.breaks event = false)
    (apart : match event with
      | .handleConnect _ _ | .handleRead _ _ | .received _ _ => False
      | _ => True) : Quiet s next := by
  cases transition with
  | begun msg msgL res built =>
    exact ⟨⟨Nat.le_succ _, fun _ _ => .refl _, fun _ _ same => same, fun _ => .inl, rfl⟩,
      rfl, rfl⟩
  | inserted caller m stage =>
    have calm := Calm.insert s m.addr m.obj.headInfo.reqId
    exact ⟨⟨calm.allocated, calm.buffer, calm.status, calm.registered, calm.answered⟩, rfl, rfl⟩
  | armed caller m p stage =>
    have calm : Calm s (s.store p (s.entries p).doInitTimer) := .store rfl id
    exact ⟨⟨calm.allocated, calm.buffer, calm.status, calm.registered, calm.answered⟩, rfl, rfl⟩
  | marked caller p stage final =>
    have calm : Calm s (s.store p { s.entries p with eraseFlag := .eraseState }) := .store rfl id
    exact ⟨⟨calm.allocated, calm.buffer, calm.status, calm.registered, calm.answered⟩, rfl, rfl⟩
  | reopened closed => cases lasts.opened.symm.trans closed
  | connected index op start live unlost =>
    have calm := Calm.refl s
    exact ⟨⟨calm.allocated, calm.buffer, calm.status, calm.registered, calm.answered⟩, rfl,
      List.length_set⟩
  | receivedHead => exact apart.elim
  | receivedMsg => exact apart.elim
  | connectOk => exact apart.elim
  | connectFailed => exact apart.elim
  | readClosed => exact apart.elim
  | headFailed => exact apart.elim
  | headKnown => exact apart.elim
  | headUnknown => exact apart.elim
  | msgFailed => exact apart.elim
  | msgOk => exact apart.elim
  | writeClosed index error op start delivers closed => cases lasts.opened.symm.trans closed
  | writeFailed index op link start failed opened closing => cases whole
  | writeNext index op m queue link start done opened mode status popped writing =>
    obtain ⟨new, _, _, _, rfl⟩ := Link.asyncWrite_eq_some writing
    have calm := Calm.refl s
    exact ⟨⟨calm.allocated, calm.buffer, calm.status, calm.registered, calm.answered⟩, rfl, rfl⟩
  | postedNext index m queue link queued status popped writing =>
    obtain ⟨new, _, _, _, rfl⟩ := Link.asyncWrite_eq_some writing
    have calm := Calm.refl s
    exact ⟨⟨calm.allocated, calm.buffer, calm.status, calm.registered, calm.answered⟩, rfl, rfl⟩
  | postedMsg index m link queued status writing =>
    obtain ⟨new, _, _, _, rfl⟩ := Link.asyncWrite_eq_some writing
    have calm := Calm.refl s
    exact ⟨⟨calm.allocated, calm.buffer, calm.status, calm.registered, calm.answered⟩, rfl, rfl⟩
  | postedClose index link queued closing =>
    exact absurd (List.mem_of_getElem? queued) lasts.unclosed
  | expired p timer moved =>
    exact ⟨.store rfl id, rfl, rfl⟩
  | timedOut p timer moved =>
    exact ⟨.store rfl (fun same => by cases same), rfl, rfl⟩
  | timeoutCancelled p timer moved =>
    exact ⟨.store rfl id, rfl, rfl⟩
  | erased error timer after moved erases =>
    have calm := Calm.erases erases
    refine ⟨⟨calm.allocated, calm.buffer, calm.status, calm.registered, calm.answered⟩, ?_, ?_⟩
    · rw [erases.rest]
    · rw [erases.rest]
  | _ =>
    have calm := Calm.refl s
    exact ⟨⟨calm.allocated, calm.buffer, calm.status, calm.registered, calm.answered⟩, rfl, rfl⟩

/-- Every entry with an answer holds one of the replies taken so far, of its id. -/
def Held (taken : List Reply) (s : ClientLoop) : Prop :=
  ∀ g ∈ s.registered, (s.entries g.entry).status = .readOk →
    ∃ r ∈ taken, r.reqId = g.reqId ∧ (s.entries g.entry).Holds r

theorem Held.calm (held : Held taken s) (catalog : Catalogued s) (calm : Calm s next) :
    Held taken next := by
  intro g member answered
  rcases calm.registered g member with before | ⟨_, unanswered⟩
  · have old := catalog.known g before
    obtain ⟨r, among, same, holds⟩ := held g before (calm.status g.entry old answered)
    exact ⟨r, among, same, (calm.buffer g.entry old).holds answered holds⟩
  · exact absurd answered unanswered

end ClientLoop

/-- What the client's read loop has taken of the next reply. -/
inductive Stage where
  | between
  | headed (r : Reply)
  | whole (r : Reply)

namespace Stage

def bytes (layout : IntLayout) : Stage → List UInt8
  | between => []
  | headed r => r.head.data layout
  | whole r => r.frame layout

def reply : Stage → List Reply
  | between => []
  | headed r => [r]
  | whole r => [r]

/-- What it has left of that reply. -/
def rest : Stage → List UInt8
  | between => []
  | headed r => r.payload
  | whole _ => []

end Stage

namespace ClientLoop

variable {layout : IntLayout} {s next : ClientLoop} {event : Event} {taken left : List Reply}
  {stage : Stage}

/-- The object a read fills was registered for the id of the reply, if at all. -/
structure Target (r : Reply) (p : Ptr) (s : ClientLoop) : Prop where
  old : p < s.allocated
  owner : ∀ g ∈ s.registered, g.entry = p → g.reqId = r.reqId

/-- Where a read of the loop stands in the replies. -/
inductive At (layout : IntLayout) (s : ClientLoop) : Stage → Operation Receive → Prop where
  | awaiting (t : RpcStructHead) (conn : Nat) :
      At layout s .between { what := .head t, conn := conn, state := .live }
  | headed (r : Reply) (conn : Nat) :
      At layout s (.headed r) { what := .head r.head, conn := conn, state := .done }
  | filling (r : Reply) (p : Ptr) (length : Int32) (conn : Nat) (target : Target r p s)
      (expects : (s.entries p).Expects layout r) (wide : length = (s.entries p).recvMsgLen) :
      At layout s (.headed r) { what := .msg p length, conn := conn, state := .live }
  | filled (r : Reply) (p : Ptr) (length : Int32) (conn : Nat) (target : Target r p s)
      (carried : (s.entries p).Carried layout r) :
      At layout s (.whole r) { what := .msg p length, conn := conn, state := .done }

/-- The read loop is where the stage says; there is one read at most. -/
inductive Reading (layout : IntLayout) (s : ClientLoop) : Stage → Prop where
  | unconnected (connects : s.link.connects.length = 1) (reads : s.link.reads = []) :
      Reading layout s .between
  | reading {stage : Stage} (op : Operation Receive) (connects : s.link.connects.length = 0)
      (alone : s.link.reads = [op]) (stands : At layout s stage op) : Reading layout s stage

theorem Target.calm {r : Reply} {p : Ptr} (target : Target r p s) (calm : Calm s next) :
    Target r p next where
  old := Nat.lt_of_lt_of_le target.old calm.allocated
  owner g member same := by
    rcases calm.registered g member with before | ⟨new, _⟩
    · exact target.owner g before same
    · exact absurd target.old (Nat.not_lt.mpr (same ▸ new))

theorem At.calm {op : Operation Receive} (stands : At layout s stage op) (calm : Calm s next) :
    At layout next stage op := by
  cases stands with
  | awaiting t conn => exact .awaiting t conn
  | headed r conn => exact .headed r conn
  | filling r p length conn target expects wide =>
    have same := calm.buffer p target.old
    have still : (next.entries p).recvMsgLen = (s.entries p).recvMsgLen := by
      rw [same]
      rfl
    exact .filling r p length conn (target.calm calm) (same.expects expects) (wide.trans still.symm)
  | filled r p length conn target carried =>
    exact .filled r p length conn (target.calm calm) ((calm.buffer p target.old).carried carried)

theorem Reading.quiet (reading : Reading layout s stage) (quiet : Quiet s next) :
    Reading layout next stage := by
  have reads := quiet.reads
  have connects := quiet.connects
  cases reading with
  | unconnected one none => exact .unconnected (connects.trans one) (reads.trans none)
  | reading op settled alone stands =>
    exact .reading op (connects.trans settled) (reads.trans alone) (stands.calm quiet.toCalm)

/-- An established connection is read from its beginning. -/
theorem Reading.connected {index : Nat} (reading : Reading layout s stage) (lasts : Lasting s)
    (transition : Transition layout s (.handleConnect index false) next) :
    Reading layout next stage ∧ Calm s next := by
  cases transition with
  | connectOk _ op link erased start done started erases =>
    have calm := Calm.erases erases
    have opened : ({ s.endConnect index with clietnStatus := .connOk } : Link).opened = true :=
      lasts.opened
    rw [Link.asyncRead_of_opened opened] at started
    cases started
    have inside := (List.getElem?_eq_some_iff.mp start).1
    cases reading with
    | reading other settled => omega
    | unconnected one none =>
      refine ⟨.reading { what := .head {}, conn := s.link.attempt, state := .live } ?_ ?_
        (.awaiting {} s.link.attempt),
        ⟨calm.allocated, calm.buffer, calm.status, calm.registered, calm.answered⟩⟩
      · rw [erases.rest]
        change (s.link.connects.eraseIdx index).length = 0
        rw [List.length_eraseIdx_of_lt inside, one]
      · rw [erases.rest]
        change s.link.reads ++ _ = _
        rw [none]
        rfl

/-- No reply taken so far has the id of the one that is read. -/
def Fresh (taken : List Reply) (stage : Stage) : Prop :=
  ∀ r ∈ stage.reply, ∀ other ∈ taken, other.reqId ≠ r.reqId

theorem fresh_of_apart (apart : ((taken ++ stage.reply ++ left).map Reply.reqId).Nodup) :
    Fresh taken stage := by
  intro r next other member
  rw [List.append_assoc, List.map_append] at apart
  exact (List.nodup_append.mp apart).2.2 other.reqId (List.mem_map_of_mem member) r.reqId
    (List.mem_map_of_mem (List.mem_append_left _ next))

theorem Held.unanswered {r : Reply} {p : Ptr} (held : Held taken s) (target : Target r p s)
    (fresh : ∀ other ∈ taken, other.reqId ≠ r.reqId) :
    ∀ g ∈ s.registered, g.entry = p → (s.entries p).status ≠ .readOk := by
  rintro g member rfl answered
  obtain ⟨other, among, same, _⟩ := held g member answered
  rw [target.owner g member rfl] at same
  exact fresh other among same

/-- A change of such an entry that gives no answer. -/
theorem Held.store {r : Reply} {p : Ptr} {m : RpcStruct} (held : Held taken s)
    (target : Target r p s) (fresh : ∀ other ∈ taken, other.reqId ≠ r.reqId)
    (status : m.status = (s.entries p).status) : Held taken (s.store p m) := by
  intro g member answered
  by_cases equal : g.entry = p
  · have same : (s.store p m).entries g.entry = m := by simp [ClientLoop.store, equal]
    rw [same, status] at answered
    exact absurd answered (held.unanswered target fresh g member equal)
  · have same : (s.store p m).entries g.entry = s.entries g.entry := by
      simp [ClientLoop.store, equal]
    rw [same] at answered ⊢
    exact held g member answered

/-- A read that is over is followed by another one on the same socket. -/
theorem read_follows {index : Nat} {what : Receive} {link : Link}
    (opened : s.link.opened = true) (again : (s.endRead index).asyncRead what = some link) :
    link = { s.link with reads := s.link.reads.eraseIdx index ++
      [{ what := what, conn := s.link.attempt, state := .live }] } := by
  have still : (s.endRead index).opened = true := opened
  rw [Link.asyncRead_of_opened still] at again
  cases again
  rfl

theorem At.received {index : Nat} {bytes : List UInt8} {op : Operation Receive}
    (stands : At layout s stage op) (held : Held taken s) (fresh : Fresh taken stage)
    (start : s.link.reads[index]? = some op) (asked : bytes.length = wanted op.what)
    (comes : bytes <+: stage.rest ++ left.flatMap (Reply.frame layout))
    (transition : Transition layout s (.received index bytes) next) :
    ∃ after behind last, after.reply ++ behind = stage.reply ++ left ∧
      after.bytes layout = stage.bytes layout ++ bytes ∧
      after.rest ++ behind.flatMap (Reply.frame layout) =
        (stage.rest ++ left.flatMap (Reply.frame layout)).drop bytes.length ∧
      next.link = { s.link with reads := s.link.reads.set index last } ∧ last.conn = op.conn ∧
      At layout next after last ∧ Held taken next ∧ next.answered = s.answered := by
  cases transition with
  | receivedHead _ read t _ found live up kind length =>
    cases found.symm.trans start
    cases stands with
    | headed r conn => cases live
    | filling r p wide conn => cases kind
    | filled r p wide conn => cases kind
    | awaiting t conn =>
    cases left with
    | nil =>
      have none : bytes = [] := by simpa [Stage.rest] using comes
      simp [none] at length
    | cons r behind =>
      have header : bytes = r.head.data layout := by
        have whole : r.head.data layout <+: r.head.data layout ++ (r.payload ++
            behind.flatMap (Reply.frame layout)) := List.prefix_append _ _
        rw [Stage.rest, List.nil_append, List.flatMap_cons, Reply.frame,
          List.append_assoc] at comes
        have shorter := List.prefix_of_prefix_length_le comes whole
          (by rw [length, RpcStructHead.length_data])
        exact shorter.eq_of_length (by rw [length, RpcStructHead.length_data])
      subst header
      refine ⟨.headed r, behind, _, rfl, rfl, ?_, rfl, rfl, ?_, held, rfl⟩
      · simp [Stage.rest, Reply.frame]
      · rw [RpcStructHead.ofData_data]
        exact .headed r conn
  | receivedMsg _ read p wide _ filled found live up kind copied =>
    cases found.symm.trans start
    cases stands with
    | awaiting t conn => cases kind
    | headed r conn => cases live
    | filled r q length conn => cases live
    | filling r q length conn target expects wide =>
    cases kind
    have payload : bytes = r.payload := by
      have length := asked.trans (wide ▸ expects.asked)
      have shorter := List.prefix_of_prefix_length_le comes
        (List.prefix_append r.payload (left.flatMap (Reply.frame layout))) (Nat.le_of_eq length)
      exact shorter.eq_of_length length
    subst payload
    have frame := RpcStruct.copyIn_frame copied
    have after := held.store (m := filled) target (fresh r (List.mem_singleton_self r))
      (by rw [frame])
    refine ⟨.whole r, left, _, rfl, rfl, by simp [Stage.rest], rfl, rfl,
      .filled r p _ conn ⟨target.old, target.owner⟩ ?_, after, rfl⟩
    rw [wide] at copied
    simpa [ClientLoop.store] using expects.receive copied

theorem At.handled {index : Nat} {op : Operation Receive} (stands : At layout s stage op)
    (held : Held taken s) (built : EntriesBuilt s) (catalog : Catalogued s)
    (opened : s.link.opened = true) (fresh : Fresh taken stage)
    (start : s.link.reads[index]? = some op)
    (transition : Transition layout s (.handleRead index false) next) :
    ∃ more after last, more ++ after.reply = stage.reply ∧
      more.flatMap (Reply.frame layout) ++ after.bytes layout = stage.bytes layout ∧
      after.rest = stage.rest ∧
      next.link = { s.link with reads := s.link.reads.eraseIdx index ++ [last] } ∧
      last.conn = s.link.attempt ∧ At layout next after last ∧ Held (taken ++ more) next ∧
      next.answered.length = s.answered.length + more.length := by
  cases transition with
  | readClosed _ error op start delivers closed => cases opened.symm.trans closed
  | headKnown _ other head p known readMsg link found done up kind present headed buffer again =>
    cases found.symm.trans start
    have link := read_follows opened again
    subst link
    cases stands with
    | awaiting t conn => cases done
    | filling r q length conn => cases done
    | filled r q length conn => cases kind
    | headed r conn =>
    cases kind
    obtain ⟨own, member, same, entry⟩ := catalog.mapped _ p present
    have target : Target r p s := by
      refine ⟨built.ptrs.map _ p present, fun g other there => ?_⟩
      rw [catalog.apart g other own member (there.trans entry.symm), same]
      rfl
    have known : known.headInfo = r.head := by rw [RpcStruct.setHead_frame headed]
    have status : readMsg.status = (s.entries p).status := by
      rw [RpcStruct.newData_frame buffer, RpcStruct.setHead_frame headed]
    have expects := ((built.grown _ p present).of_setHead headed).expects known buffer
    have after := held.store target (fresh r (List.mem_singleton_self r)) status
    refine ⟨[], .headed r, _, rfl, rfl, rfl, rfl, rfl,
      .filling r p _ s.link.attempt ⟨target.old, target.owner⟩ ?_ ?_, ?_, rfl⟩
    · simpa [ClientLoop.store] using expects
    · simp [ClientLoop.store]
    · rw [List.append_nil]
      exact after
  | headUnknown _ other head readMsg link found done up kind unknown buffer again =>
    cases found.symm.trans start
    have link := read_follows opened again
    subst link
    cases stands with
    | awaiting t conn => cases done
    | filling r q length conn => cases done
    | filled r q length conn => cases kind
    | headed r conn =>
    cases kind
    have unregistered : ∀ g ∈ s.registered, g.entry ≠ s.allocated :=
      fun g member => Nat.ne_of_lt (catalog.known g member)
    have expects := r.ofHead_grown.expects rfl buffer
    refine ⟨[], .headed r, _, rfl, rfl, rfl, rfl, rfl,
      .filling r s.allocated _ s.link.attempt ⟨Nat.lt_succ_self _, ?_⟩ ?_ ?_, ?_, rfl⟩
    · exact fun g member same => absurd same (unregistered g member)
    · simpa [ClientLoop.store] using expects
    · simp [ClientLoop.store]
    · intro g member answered
      have same : (s.store s.allocated readMsg).entries g.entry = s.entries g.entry := by
        simp [ClientLoop.store, unregistered g member]
      rw [List.append_nil]
      simp only [same] at answered ⊢
      exact held g member answered
  | msgOk _ other p length readMsg link found done up kind body again =>
    cases found.symm.trans start
    have link := read_follows opened again
    subst link
    cases stands with
    | awaiting t conn => cases done
    | headed r conn => cases kind
    | filling r q length conn => cases done
    | filled r q length conn target carried =>
    cases kind
    refine ⟨[r], .between, _, rfl, by simp [Stage.bytes], rfl, rfl, rfl,
      .awaiting {} s.link.attempt, ?_, rfl⟩
    intro g member answered
    by_cases equal : g.entry = p
    · subst equal
      refine ⟨r, List.mem_append_right _ (List.mem_singleton_self r),
        (target.owner g member rfl).symm, ?_⟩
      simpa [ClientLoop.store] using carried.holds body
    · have same : (s.store p (readMsg.setStatus .readOk)).entries g.entry = s.entries g.entry := by
        simp [ClientLoop.store, equal]
      simp only [same] at answered ⊢
      obtain ⟨other, among, rest⟩ := held g member answered
      exact ⟨other, List.mem_append_left _ among, rest⟩

/-- A read that is listed is the only one. -/
theorem Reading.only {index : Nat} {op : Operation Receive} (reading : Reading layout s stage)
    (start : s.link.reads[index]? = some op) :
    index = 0 ∧ s.link.reads = [op] ∧ s.link.connects.length = 0 ∧ At layout s stage op := by
  cases reading with
  | unconnected one none => simp [none] at start
  | reading other settled alone stands =>
    have inside := (List.getElem?_eq_some_iff.mp start).1
    rw [alone, List.length_singleton] at inside
    obtain rfl : index = 0 := by omega
    rw [alone] at start
    cases start
    exact ⟨rfl, alone, settled, stands⟩

theorem Reading.received {index : Nat} {bytes : List UInt8} {op : Operation Receive}
    (reading : Reading layout s stage) (held : Held taken s)
    (apart : ((taken ++ stage.reply ++ left).map Reply.reqId).Nodup)
    (start : s.link.reads[index]? = some op) (asked : bytes.length = wanted op.what)
    (comes : bytes <+: stage.rest ++ left.flatMap (Reply.frame layout))
    (transition : Transition layout s (.received index bytes) next) :
    ∃ after behind, after.reply ++ behind = stage.reply ++ left ∧
      after.bytes layout = stage.bytes layout ++ bytes ∧
      after.rest ++ behind.flatMap (Reply.frame layout) =
        (stage.rest ++ left.flatMap (Reply.frame layout)).drop bytes.length ∧
      Reading layout next after ∧ Held taken next ∧ next.answered = s.answered := by
  obtain ⟨rfl, alone, settled, stands⟩ := reading.only start
  obtain ⟨after, behind, last, order, upTo, rest, link, _, still, holds, answered⟩ :=
    stands.received held (fresh_of_apart apart) start asked comes transition
  refine ⟨after, behind, order, upTo, rest, .reading last ?_ ?_ still, holds, answered⟩
  · rw [link]
    exact settled
  · rw [link, alone, List.set_cons_zero]

theorem Reading.handled {index : Nat} (reading : Reading layout s stage) (held : Held taken s)
    (built : EntriesBuilt s) (catalog : Catalogued s) (lasts : Lasting s)
    (apart : ((taken ++ stage.reply ++ left).map Reply.reqId).Nodup)
    (transition : Transition layout s (.handleRead index false) next) :
    ∃ more after, more ++ after.reply = stage.reply ∧
      more.flatMap (Reply.frame layout) ++ after.bytes layout = stage.bytes layout ∧
      after.rest = stage.rest ∧ Reading layout next after ∧ Held (taken ++ more) next ∧
      next.answered.length = s.answered.length + more.length := by
  obtain ⟨op, start⟩ : ∃ op, s.link.reads[index]? = some op := by
    cases transition with
    | _ => exact ⟨_, ‹s.link.reads[index]? = some _›⟩
  obtain ⟨rfl, alone, settled, stands⟩ := reading.only start
  obtain ⟨more, after, last, reply, sent, rest, link, _, still, holds, answered⟩ :=
    stands.handled held built catalog lasts.opened (fresh_of_apart apart) start transition
  refine ⟨more, after, reply, sent, rest, .reading last ?_ ?_ still, holds, answered⟩
  · rw [link]
    exact settled
  · rw [link, alone, List.eraseIdx_cons_zero, List.nil_append]

end ClientLoop

end RpcLoop
