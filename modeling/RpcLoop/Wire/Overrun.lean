import RpcLoop.Client.Entries
import RpcLoop.Server.Session

/-! What a peer's header can do to the buffer that is to take its payload. Both
sizes in the header are the sender's, and no handler looks at them before it
allocates and starts the read. -/

namespace RpcLoop

open Foundation Asio Shared

/-- The read stays inside the buffer behind `meta_offset`. -/
def RpcStruct.ReadFits (m : RpcStruct) (length : Int32) : Prop :=
  ∃ block, m.data = some block ∧ m.metaOffset.toInt + CInt.toSizeT length ≤ block.size

/-- None of the sums of offset, capacity and lengths overflows an `int`. -/
structure SumsFit (bodyOffset preBodySize : Int) (h : RpcStructHead) : Prop where
  buffer : CInt.Fits (bodyOffset + preBodySize)
  payload : CInt.Fits (h.bodyLen.toInt + h.metaLen.toInt)
  frame : CInt.Fits (h.bodyLen.toInt + bodyOffset)

/-- The capacity that a header leaves a buffer with. -/
def capacityFor (h : RpcStructHead) (preBodySize : Int) : Int := max h.bodyLen.toInt preBodySize

/-- The bytes that an object built from the header needs. -/
def freshSize (h : RpcStructHead) : Int := 12 + h.metaLen.toInt + capacityFor h 2048

/-- The headers that an object built from them can take: the buffer has an `int`
size, and either the payload's length is not negative or the size is, so that
the allocation fails. -/
structure FreshFits (h : RpcStructHead) : Prop where
  size : freshSize h < 2 ^ 31
  lower : -2 ^ 31 ≤ h.bodyLen.toInt + h.metaLen.toInt
  length : freshSize h < 0 ∨ 0 ≤ h.bodyLen.toInt + h.metaLen.toInt

/-- The headers that a default-constructed object of a capacity can take: the
payload is not negative, and the meta data exceed the default eight bytes by at
most what the body leaves free. -/
structure KnownFits (h : RpcStructHead) (preBodySize : Int) : Prop where
  body : h.bodyLen.toInt + 20 < 2 ^ 31
  nonneg : 0 ≤ h.bodyLen.toInt + h.metaLen.toInt
  room : h.bodyLen.toInt + h.metaLen.toInt ≤ 8 + capacityFor h preBodySize

namespace RpcStruct

variable {layout : IntLayout} {h : RpcStructHead}

private theorem ofHead_size (size : CInt.Fits (freshSize h)) :
    ∃ pre, (ofHead h).allocate = (pre, malloc ((ofHead h).bodyOffset + pre)) ∧
      ((ofHead h).bodyOffset + pre).toInt = freshSize h := by
  have capacity : (2048 : Int32).toInt = 2048 := by decide
  have sum : ∀ pre : Int32, pre.toInt = capacityFor h 2048 →
      ((ofHead h).bodyOffset + pre).toInt = freshSize h := by
    intro pre same
    have offset : (ofHead h).bodyOffset.toInt = (12 + h.metaLen.toInt).bmod (2 ^ 32) :=
      Int32.toInt_add _ _
    rw [Int32.toInt_add, offset, Int.bmod_add_bmod, same]
    have lower := size.1
    have upper := size.2
    exact Int.bmod_eq_of_le (by simp only [freshSize] at lower; omega)
      (by simp only [freshSize] at upper; omega)
  by_cases grow : (2048 : Int32) < h.bodyLen
  · have larger := Int32.lt_iff_toInt_lt.mp grow
    refine ⟨h.bodyLen, ?_, sum _ ?_⟩
    · simp [allocate, ofHead, grow]
    · simp only [capacityFor]
      omega
  · have smaller := Int32.le_iff_toInt_le.mp (Int32.not_lt.mp grow)
    refine ⟨2048, ?_, sum _ ?_⟩
    · simp [allocate, ofHead, grow]
    · simp only [capacityFor]
      omega

private theorem ofHead_recvMsgBuff (layout : IntLayout) (size : CInt.Fits (freshSize h)) :
    (freshSize h < 0 ∧ (ofHead h).recvMsgBuff layout = .error .assertion) ∨
    (0 ≤ freshSize h ∧ freshSize h < 12 ∧
      (ofHead h).recvMsgBuff layout = .error .outOfBounds) ∨
    (12 ≤ freshSize h ∧ ∃ m block, (ofHead h).recvMsgBuff layout = .ok m ∧ m.headInfo = h ∧
      m.metaOffset = 12 ∧ m.data = some block ∧ (block.size : Int) = freshSize h) := by
  obtain ⟨pre, allocated, asked⟩ := ofHead_size size
  by_cases negative : freshSize h < 0
  · rw [malloc_none (by omega)] at allocated
    exact .inl ⟨negative, newData_of_none allocated⟩
  · rw [malloc_eq (by omega), asked] at allocated
    by_cases short : freshSize h < 12
    · have less : (Block.fresh (freshSize h).toNat).size < 12 := by
        simp only [Block.size_fresh]
        omega
      exact .inr (.inl ⟨by omega, short, newData_of_short allocated rfl less⟩)
    · have enough : 12 ≤ (Block.fresh (freshSize h).toNat).size := by
        simp only [Block.size_fresh]
        omega
      refine .inr (.inr ⟨by omega, _, _, newData_of_enough allocated rfl enough, rfl, rfl, rfl, ?_⟩)
      simp only [Block.size_write, Block.size_fresh]
      omega

/-- What the read of a payload needs of the object prepared for it. -/
theorem readFits_iff {m : RpcStruct} {block : Block} (data : m.data = some block)
    (start : m.metaOffset = 12) (bound : block.size < 2 ^ 31)
    (payload : CInt.Fits (m.headInfo.bodyLen.toInt + m.headInfo.metaLen.toInt)) :
    m.ReadFits m.recvMsgLen ↔ 0 ≤ m.headInfo.bodyLen.toInt + m.headInfo.metaLen.toInt ∧
      12 + (m.headInfo.bodyLen.toInt + m.headInfo.metaLen.toInt) ≤ block.size := by
  have total : m.recvMsgLen.toInt = m.headInfo.bodyLen.toInt + m.headInfo.metaLen.toInt :=
    CInt.toInt_add _ _ payload.1 payload.2
  have twelve : (12 : Int32).toInt = 12 := by decide
  rw [← total]
  constructor
  · rintro ⟨other, found, inside⟩
    cases data.symm.trans found
    rw [start, twelve] at inside
    by_cases nonneg : 0 ≤ m.recvMsgLen.toInt
    · rw [CInt.toSizeT_of_nonneg nonneg] at inside
      exact ⟨nonneg, inside⟩
    · have enormous := CInt.toSizeT_of_neg (Int.not_le.mp nonneg)
      omega
  · rintro ⟨nonneg, inside⟩
    refine ⟨block, data, ?_⟩
    rw [start, twelve, CInt.toSizeT_of_nonneg nonneg]
    exact inside

/-- How the preparation of a read ends well: at the assertion in `new_data`, or
with a read that fits. -/
structure Prepared (outcome : Except Fault RpcStruct) : Prop where
  copied : outcome ≠ .error .outOfBounds
  started : ∀ m, outcome = .ok m → m.ReadFits m.recvMsgLen

theorem Prepared.failed : Prepared (.error .assertion) where
  copied := by simp
  started m same := by cases same

theorem Prepared.ok {m : RpcStruct} (fits : m.ReadFits m.recvMsgLen) : Prepared (.ok m) where
  copied := by simp
  started other same := by
    cases same
    exact fits

/-- An object built from the header. -/
theorem ofHead_prepared_iff (layout : IntLayout) (h : RpcStructHead) :
    Prepared ((ofHead h).recvMsgBuff layout) ∧
        SumsFit (12 + h.metaLen.toInt) (capacityFor h 2048) h ↔ FreshFits h := by
  have lower := h.metaLen.le_toInt
  have positive : (2048 : Int) ≤ capacityFor h 2048 := Int.le_max_right _ _
  have covers : h.bodyLen.toInt ≤ capacityFor h 2048 := Int.le_max_left _ _
  have same : freshSize h = 12 + h.metaLen.toInt + capacityFor h 2048 := rfl
  have low : -2 ^ 31 ≤ freshSize h := by omega
  constructor
  · rintro ⟨prepared, sums⟩
    have size : freshSize h < 2 ^ 31 := sums.buffer.2
    refine ⟨size, sums.payload.1, ?_⟩
    rcases ofHead_recvMsgBuff layout ⟨low, size⟩ with
      ⟨negative, _⟩ | ⟨_, _, outside⟩ | ⟨_, m, block, taken, head, start, data, exact⟩
    · exact .inl negative
    · exact absurd outside prepared.copied
    · right
      have fits := (readFits_iff data start (by omega) (by rw [head]; exact sums.payload)).mp
        (prepared.started m taken)
      rw [head] at fits
      exact fits.1
  · intro fits
    have size := fits.size
    have payload := fits.lower
    have length := fits.length
    constructor
    · rcases ofHead_recvMsgBuff layout ⟨low, size⟩ with
        ⟨_, failed⟩ | ⟨large, small, _⟩ | ⟨_, m, block, taken, head, start, data, exact⟩
      · rw [failed]
        exact .failed
      · omega
      · rw [taken]
        refine .ok ((readFits_iff data start (by omega) ?_).mpr ?_)
        · rw [head]
          exact ⟨payload, by omega⟩
        · rw [head]
          omega
    · refine ⟨⟨?_, ?_⟩, ⟨payload, ?_⟩, ⟨?_, ?_⟩⟩ <;> omega

private theorem grown_recvMsgBuff (layout : IntLayout) {m : RpcStruct} (grown : Grown m)
    (body : h.bodyLen.toInt + 20 < 2 ^ 31) :
    ∃ filled block, (m.setHead layout h).bind (recvMsgBuff layout) = .ok filled ∧
      filled.headInfo = h ∧ filled.metaOffset = 12 ∧ filled.data = some block ∧
      (block.size : Int) = 20 + capacityFor h m.preBodySize.toInt := by
  have headed : Grown { m with headInfo := h } :=
    grown.same rfl rfl rfl rfl fun block found => ⟨block, found, rfl⟩
  obtain ⟨larger, early, first, grows, _, known⟩ := headed.newData layout body
  obtain ⟨pre, block, second, keeps, size, ready⟩ := known.newData layout body
  simp only at grows keeps
  refine ⟨_, block, ?_, rfl, ready.metaOffset, rfl, ?_⟩
  · rw [setHead, first]
    exact second
  · simp only [capacityFor]
    omega

private theorem grown_prepared_iff (layout : IntLayout) (h : RpcStructHead) {m : RpcStruct}
    (grown : Grown m) :
    Prepared ((m.setHead layout h).bind (recvMsgBuff layout)) ∧
        SumsFit 20 (capacityFor h m.preBodySize.toInt) h ↔ KnownFits h m.preBodySize.toInt := by
  have capacity := grown.capacity
  have fits := grown.fits
  have upper := h.metaLen.toInt_lt
  have lower := h.metaLen.le_toInt
  have least := h.bodyLen.le_toInt
  have larger : capacityFor h m.preBodySize.toInt = max h.bodyLen.toInt m.preBodySize.toInt := rfl
  by_cases body : h.bodyLen.toInt + 20 < 2 ^ 31
  · obtain ⟨filled, block, outcome, head, start, data, size⟩ := grown_recvMsgBuff layout grown body
    have reads : CInt.Fits (h.bodyLen.toInt + h.metaLen.toInt) →
        (filled.ReadFits filled.recvMsgLen ↔ 0 ≤ h.bodyLen.toInt + h.metaLen.toInt ∧
          12 + (h.bodyLen.toInt + h.metaLen.toInt) ≤ block.size) := by
      intro payload
      rw [← head] at payload ⊢
      exact readFits_iff data start (by omega) payload
    rw [outcome]
    constructor
    · rintro ⟨prepared, sums⟩
      obtain ⟨nonneg, inside⟩ := (reads sums.payload).mp (prepared.started filled rfl)
      exact ⟨body, nonneg, by omega⟩
    · intro takes
      have nonneg := takes.nonneg
      have room := takes.room
      have payload : CInt.Fits (h.bodyLen.toInt + h.metaLen.toInt) := ⟨by omega, by omega⟩
      refine ⟨.ok ((reads payload).mpr ⟨nonneg, by omega⟩), ⟨?_, ?_⟩, payload, ⟨?_, ?_⟩⟩ <;> omega
  · constructor
    · rintro ⟨_, sums⟩
      have buffer := sums.buffer.2
      omega
    · exact fun takes => absurd takes.body body

end RpcStruct

/-! ### Handlers -/

namespace LinkSession

/-- What `handle_read_header` of a session should do with a header: start a read
that fits its buffer, or stop at the assertion in `new_data`. Behind a copy of
the header outside of the buffer nothing could be promised. -/
structure HeaderSafe (layout : IntLayout) (s : LinkSession) (bytes : List UInt8) : Prop where
  copied : (RpcStruct.ofHead (.ofData layout bytes)).recvMsgBuff layout ≠ .error .outOfBounds
  started : ∀ next, s.handleReadHeader layout bytes = some next →
    ∃ p length, next.reading = .msg p length ∧ (next.heap p).ReadFits length
  sums : SumsFit (12 + (RpcStructHead.ofData layout bytes).metaLen.toInt)
    (capacityFor (.ofData layout bytes) 2048) (.ofData layout bytes)

private theorem handleReadHeader_started (layout : IntLayout) (s : LinkSession)
    (bytes : List UInt8) :
    (∀ next, s.handleReadHeader layout bytes = some next →
      ∃ p length, next.reading = .msg p length ∧ (next.heap p).ReadFits length) ↔
    ∀ m, (RpcStruct.ofHead (.ofData layout bytes)).recvMsgBuff layout = .ok m →
      m.ReadFits m.recvMsgLen := by
  unfold handleReadHeader
  cases (RpcStruct.ofHead (.ofData layout bytes)).recvMsgBuff layout with
  | error fault => simp [Except.toOption]
  | ok m => simp [Except.toOption, alloc]

private theorem headerSafe_iff (layout : IntLayout) (s : LinkSession) (bytes : List UInt8) :
    s.HeaderSafe layout bytes ↔ FreshFits (.ofData layout bytes) := by
  rw [← RpcStruct.ofHead_prepared_iff layout]
  constructor
  · intro safe
    exact ⟨⟨safe.copied, (handleReadHeader_started layout s bytes).mp safe.started⟩, safe.sums⟩
  · rintro ⟨prepared, sums⟩
    exact ⟨prepared.copied, (handleReadHeader_started layout s bytes).mpr prepared.started, sums⟩

end LinkSession

namespace ClientLoop

/-- The object that `handle_read_header` prepares for the payload: the entry of
the header's id, or a new one. -/
def headerObject (layout : IntLayout) (s : ClientLoop) (head : RpcStructHead) :
    Except Fault RpcStruct :=
  match s.recvMsgMap[head.reqId]? with
  | some p => ((s.entries p).setHead layout head).bind (RpcStruct.recvMsgBuff layout)
  | none => (RpcStruct.ofHead head).recvMsgBuff layout

/-- The sums of the object that is prepared. -/
def HeaderSums (s : ClientLoop) (head : RpcStructHead) : Prop :=
  match s.recvMsgMap[head.reqId]? with
  | some p => SumsFit 20 (capacityFor head (s.entries p).preBodySize.toInt) head
  | none => SumsFit (12 + head.metaLen.toInt) (capacityFor head 2048) head

/-- What `handle_read_header` of a client should do with a header. -/
structure HeaderSafe (layout : IntLayout) (s : ClientLoop) (head : RpcStructHead) : Prop where
  copied : s.headerObject layout head ≠ .error .outOfBounds
  started : ∀ next, s.handleReadHeader layout head false = some next →
    ∃ op p length, next.link.reads = s.link.reads ++ [op] ∧ op.what = .msg p length ∧
      (next.entries p).ReadFits length
  sums : s.HeaderSums head

/-- The headers that a client can take in a state: it depends on whether their id
is known, and then on the buffer that earlier replies have left. -/
def HeaderFits (s : ClientLoop) (head : RpcStructHead) : Prop :=
  match s.recvMsgMap[head.reqId]? with
  | some p => KnownFits head (s.entries p).preBodySize.toInt
  | none => FreshFits head

variable {layout : IntLayout} {s : ClientLoop} {head : RpcStructHead}

private theorem doReadMsg_eq (layout : IntLayout) (opened : s.link.opened = true) {p : Ptr}
    {object : RpcStruct} (entry : s.entries p = object) :
    (∃ fault, object.recvMsgBuff layout = .error fault ∧ s.doReadMsg layout p = none) ∨
    ∃ (m : RpcStruct) (next : ClientLoop) (op : Operation Receive),
      object.recvMsgBuff layout = .ok m ∧ s.doReadMsg layout p = some next ∧
      next.link.reads = s.link.reads ++ [op] ∧ op.what = .msg p m.recvMsgLen ∧
      next.entries p = m := by
  cases buffer : object.recvMsgBuff layout with
  | error fault => exact .inl ⟨fault, rfl, by simp [doReadMsg, entry, buffer, Except.toOption]⟩
  | ok m =>
    have made : (s.entries p).recvMsgBuff layout = .ok m := by rw [entry, buffer]
    exact .inr ⟨m, _, _, rfl, doReadMsg_of_opened opened made, rfl, rfl,
      Function.update_self _ _ _⟩

private theorem handleReadHeader_eq (layout : IntLayout) (head : RpcStructHead)
    (opened : s.link.opened = true) :
    (∃ fault, s.headerObject layout head = .error fault ∧
      s.handleReadHeader layout head false = none) ∨
    ∃ m next op p, s.headerObject layout head = .ok m ∧
      s.handleReadHeader layout head false = some next ∧
      next.link.reads = s.link.reads ++ [op] ∧ op.what = .msg p m.recvMsgLen ∧
      next.entries p = m := by
  unfold handleReadHeader headerObject
  simp only [Bool.false_eq_true, if_false]
  cases found : s.recvMsgMap[head.reqId]? with
  | none =>
    have entry : (s.store s.allocated (.ofHead head)).entries s.allocated = .ofHead head :=
      Function.update_self _ _ _
    rcases doReadMsg_eq layout
      (s := { s.store s.allocated (.ofHead head) with allocated := s.allocated + 1 }) opened entry
      with failed | ⟨m, next, op, started⟩
    · exact .inl failed
    · exact .inr ⟨m, next, op, s.allocated, started⟩
  | some p =>
    dsimp only
    cases headed : (s.entries p).setHead layout head with
    | error fault => exact .inl ⟨fault, rfl, rfl⟩
    | ok known =>
      have entry : (s.store p known).entries p = known := Function.update_self _ _ _
      rcases doReadMsg_eq layout (s := s.store p known) opened entry with
        failed | ⟨m, next, op, started⟩
      · exact .inl failed
      · exact .inr ⟨m, next, op, p, started⟩

private theorem handleReadHeader_started (opened : s.link.opened = true) :
    (∀ next, s.handleReadHeader layout head false = some next →
      ∃ op p length, next.link.reads = s.link.reads ++ [op] ∧ op.what = .msg p length ∧
        (next.entries p).ReadFits length) ↔
    ∀ m, s.headerObject layout head = .ok m → m.ReadFits m.recvMsgLen := by
  rcases handleReadHeader_eq layout head opened with
    ⟨fault, failed, stopped⟩ | ⟨m, next, op, p, prepared, reading, reads, what, entry⟩
  · simp [failed, stopped]
  · constructor
    · intro started other same
      cases prepared.symm.trans same
      obtain ⟨begun, q, length, appended, receives, fits⟩ := started next reading
      have equal : begun = op := by
        have last := List.append_cancel_left (appended.symm.trans reads)
        exact (List.cons_eq_cons.mp last).1
      subst equal
      cases what.symm.trans receives
      rw [entry] at fits
      exact fits
    · intro fits after same
      cases reading.symm.trans same
      refine ⟨op, p, _, reads, what, ?_⟩
      rw [entry]
      exact fits m prepared

private theorem headerSafe_iff (layout : IntLayout) (built : EntriesBuilt s)
    (opened : s.link.opened = true)
    (head : RpcStructHead) : s.HeaderSafe layout head ↔ s.HeaderFits head := by
  have prepared : s.HeaderSafe layout head ↔
      RpcStruct.Prepared (s.headerObject layout head) ∧ s.HeaderSums head := by
    constructor
    · intro safe
      exact ⟨⟨safe.copied, (handleReadHeader_started opened).mp safe.started⟩, safe.sums⟩
    · rintro ⟨prepared, sums⟩
      exact ⟨prepared.copied, (handleReadHeader_started opened).mpr prepared.started, sums⟩
  rw [prepared]
  unfold headerObject HeaderSums HeaderFits
  cases found : s.recvMsgMap[head.reqId]? with
  | none => exact RpcStruct.ofHead_prepared_iff layout head
  | some p => exact RpcStruct.grown_prepared_iff layout head (built.grown _ p found)

end ClientLoop

/-- A peer's header is safe on the three receive paths exactly under these
conditions: for every session, and in every state of every run of a client whose
socket is open. -/
theorem headers_safe_iff (layout : IntLayout) :
    (∀ (s : LinkSession) (bytes : List UInt8),
      s.HeaderSafe layout bytes ↔ FreshFits (.ofData layout bytes)) ∧
    ∀ (csq : ClientSendQueue) (schedule : List ClientLoop.Event),
      (ClientLoop.machine layout).Always
        (fun s => s.link.opened = true → ∀ head, s.HeaderSafe layout head ↔ s.HeaderFits head)
        (ClientLoop.start csq) schedule := by
  constructor
  · exact LinkSession.headerSafe_iff layout
  · intro csq schedule
    apply Machine.always_of_invariant ClientLoop.EntriesBuilt
    · exact fun built opened head => ClientLoop.headerSafe_iff layout built opened head
    · exact fun built taken => built.step (ClientLoop.transition_of_step taken)
    · exact .initial csq

/-- A header with a meta length of minus one and an empty body. -/
def negativeMeta : List UInt8 := [1, 0, 0, 0, 0, 0, 0, 0, 255, 255, 255, 255]

/-- The session starts a read of all memory into a buffer of 2047 bytes. -/
theorem negativeMeta_overruns :
    ¬ LinkSession.start.HeaderSafe .littleEndian negativeMeta := by
  intro safe
  have outcome : ((LinkSession.start.handleReadHeader .littleEndian negativeMeta).map fun s =>
      (s.reading, (s.heap 0).metaOffset, (s.heap 0).data.map Block.size)) =
        some (.msg 0 (-1), 12, some 2059) := by
    decide +kernel
  obtain ⟨next, handled, same⟩ := Option.map_eq_some_iff.mp outcome
  obtain ⟨reading, start, size⟩ : next.reading = .msg 0 (-1) ∧ (next.heap 0).metaOffset = 12 ∧
      (next.heap 0).data.map Block.size = some 2059 := by
    simpa using same
  obtain ⟨p, length, started, block, data, fits⟩ := safe.started next handled
  cases reading.symm.trans started
  rw [data] at size
  rw [start, Option.some.inj size] at fits
  exact absurd fits (by decide)

end RpcLoop
