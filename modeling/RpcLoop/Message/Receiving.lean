import RpcLoop.Message.Filled

/-! The two kinds of receive buffers. An object built from a received header
has its offsets from that header; a default-constructed one is given a header
later and keeps the offsets it started with, whatever the headers say. -/

namespace RpcLoop.RpcStruct

open Foundation

/-- A default-constructed object, with whatever buffer earlier headers left it. -/
structure Grown (m : RpcStruct) : Prop where
  headSize : m.headSize = 12
  metaOffset : m.metaOffset = 12
  bodyOffset : m.bodyOffset = 20
  capacity : 2048 ≤ m.preBodySize.toInt
  fits : m.preBodySize.toInt + 20 < 2 ^ 31
  sized : ∀ block, m.data = some block → (block.size : Int) = m.preBodySize.toInt + 20

variable {layout : IntLayout} {m next : RpcStruct}

theorem Grown.new : Grown RpcStruct.new where
  headSize := rfl
  metaOffset := rfl
  bodyOffset := rfl
  capacity := by decide
  fits := by decide
  sized block absent := by cases absent

/-- Only the offsets, the capacity and the buffer matter. -/
theorem Grown.same (grown : Grown m) (headSize : next.headSize = m.headSize)
    (metaOffset : next.metaOffset = m.metaOffset) (bodyOffset : next.bodyOffset = m.bodyOffset)
    (capacity : next.preBodySize = m.preBodySize)
    (data : ∀ block, next.data = some block → ∃ old, m.data = some old ∧ block.size = old.size) :
    Grown next where
  headSize := headSize.trans grown.headSize
  metaOffset := metaOffset.trans grown.metaOffset
  bodyOffset := bodyOffset.trans grown.bodyOffset
  capacity := capacity ▸ grown.capacity
  fits := capacity ▸ grown.fits
  sized block found := by
    obtain ⟨old, before, size⟩ := data block found
    rw [size, capacity]
    exact grown.sized old before

theorem Grown.offset (grown : Grown m) : m.bodyOffset.toInt = 20 := by
  rw [grown.bodyOffset]
  rfl

theorem Grown.room (grown : Grown m) (body : m.headInfo.bodyLen.toInt + 20 < 2 ^ 31) : m.Room := by
  have offset := grown.offset
  have capacity := grown.capacity
  have fits := grown.fits
  refine ⟨grown.headSize, by omega, by omega, by omega, fun block found => ?_⟩
  have size := grown.sized block found
  omega

/-- A header that fits leaves the object with a buffer for its body. -/
theorem Grown.newData (layout : IntLayout) (grown : Grown m)
    (body : m.headInfo.bodyLen.toInt + 20 < 2 ^ 31) :
    ∃ pre block, m.newData layout = .ok { m with preBodySize := pre, data := some block } ∧
      pre.toInt = max m.headInfo.bodyLen.toInt m.preBodySize.toInt ∧
      (block.size : Int) = pre.toInt + 20 ∧
      Grown { m with preBodySize := pre, data := some block } := by
  obtain ⟨pre, block, same, larger, ready, _⟩ := newData_eq layout (grown.room body)
  have offset := grown.offset
  have capacity := grown.capacity
  have fits := grown.fits
  have size := ready.size
  simp only at size
  refine ⟨pre, block, same, larger, by omega, grown.headSize, grown.metaOffset, grown.bodyOffset,
    ?_, ?_, ?_⟩
  · simp only
    omega
  · simp only
    omega
  · intro other found
    cases found
    simp only
    omega

theorem Grown.newData_fails (grown : Grown m) (body : 2 ^ 31 ≤ m.headInfo.bodyLen.toInt + 20) :
    m.newData layout = .error .assertion := by
  have offset := grown.offset
  have fits := grown.fits
  have grow : m.preBodySize < m.headInfo.bodyLen := Int32.lt_iff_toInt_lt.mpr (by omega)
  have negative := CInt.toInt_add_neg m.bodyOffset m.headInfo.bodyLen (by omega)
  have failed : m.allocate = (m.headInfo.bodyLen, none) := by
    unfold allocate
    simp only [grow, if_true]
    cases m.data with
    | none => simp only [malloc_none negative]
    | some block => simp only [realloc_none negative]
  exact newData_of_none failed

/-- Whatever a header says, an object that survives it is as before. -/
theorem Grown.of_newData (grown : Grown m) (called : m.newData layout = .ok next) : Grown next := by
  by_cases body : m.headInfo.bodyLen.toInt + 20 < 2 ^ 31
  · obtain ⟨pre, block, same, _, _, again⟩ := grown.newData layout body
    cases same.symm.trans called
    exact again
  · rw [grown.newData_fails (by omega)] at called
    cases called

theorem Grown.of_setHead (grown : Grown m) {rt : RpcStructHead}
    (called : m.setHead layout rt = .ok next) : Grown next := by
  have headed : Grown { m with headInfo := rt } :=
    grown.same rfl rfl rfl rfl fun block found => ⟨block, found, rfl⟩
  exact headed.of_newData called

theorem Grown.of_copyIn (grown : Grown m) {offset length : Int32} {source : List Cell}
    (called : m.copyIn offset source length = .ok next) : Grown next := by
  have frame := copyIn_frame called
  refine grown.same (by rw [frame]) (by rw [frame]) (by rw [frame]) (by rw [frame]) ?_
  intro block found
  unfold RpcStruct.copyIn at called
  split at called
  · cases called
  · rename_i old before
    refine ⟨old, before, ?_⟩
    split at called
    · cases called
    · rename_i written copied
      cases called
      cases found
      unfold memcpy at copied
      split at copied
      · cases copied
        rfl
      · cases copied

theorem Grown.ready (layout : IntLayout) (grown : Grown m) {rt : RpcStructHead}
    (body : 0 ≤ rt.bodyLen.toInt) (fits : rt.bodyLen.toInt + 20 < 2 ^ 31) :
    ∃ known ready block, m.setHead layout rt = .ok known ∧ known.recvMsgBuff layout = .ok ready ∧
      Whole layout ready block ∧
      ready = { m with headInfo := rt, preBodySize := ready.preBodySize, data := ready.data } := by
  have headed : Grown { m with headInfo := rt } :=
    grown.same rfl rfl rfl rfl fun block found => ⟨block, found, rfl⟩
  obtain ⟨pre, block, first, whole⟩ := newData_whole layout (headed.room fits) body
  obtain ⟨fresh, second, again, _⟩ := whole.newData
  exact ⟨_, _, fresh, first, second, again, rfl⟩

/-- Such an object takes the payload of a header with the default meta length. -/
theorem Grown.receive (layout : IntLayout) (grown : Grown m) (rt : RpcStructHead)
    (payload : List UInt8) (metaLen : rt.metaLen = 8) (body : 0 ≤ rt.bodyLen.toInt)
    (fits : rt.bodyLen.toInt + 20 < 2 ^ 31)
    (length : (payload.length : Int) = 8 + rt.bodyLen.toInt) :
    ∃ known ready filled block, m.setHead layout rt = .ok known ∧
      known.recvMsgBuff layout = .ok ready ∧ ready.recvMsgLen.toInt = payload.length ∧
      ready.receive payload ready.recvMsgLen = .ok filled ∧
      filled = { m with headInfo := rt, preBodySize := filled.preBodySize, data := filled.data } ∧
      Filled layout filled block ((payload.take 8).map some) ((payload.drop 8).map some) := by
  obtain ⟨known, ready, block, first, second, whole, frame⟩ := grown.ready layout body fits
  have head : ready.headInfo = rt := by rw [frame]
  have start : ready.metaOffset = 12 := by
    rw [frame]
    exact grown.metaOffset
  have offset : ready.bodyOffset = 20 := by
    rw [frame]
    exact grown.bodyOffset
  have eight : (8 : Int32).toInt = 8 := by decide
  have twenty : (20 : Int32).toInt = 20 := by decide
  obtain ⟨announced, fresh, taken, filled⟩ := whole.receive start
    (by rw [head, offset, metaLen, eight, twenty]; omega) payload
    (by rw [head, metaLen, eight]; exact length)
  refine ⟨known, ready, _, fresh, first, second, announced, taken, ?_, ?_⟩
  · rw [frame]
  · have metaBytes : ready.headInfo.metaLen.toInt.toNat = 8 := by
      rw [head, metaLen]
      rfl
    rw [metaBytes] at filled
    exact filled

end RpcLoop.RpcStruct
