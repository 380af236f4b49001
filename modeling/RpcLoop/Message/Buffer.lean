import RpcLoop.Message.Struct

/-! What `new_data` and the copies into the buffer guarantee, as long as the
sizes involved fit an `int`. -/

namespace RpcLoop.RpcStruct

open Foundation

/-- The object can hold its current body: no size it computes overflows. -/
structure Room (m : RpcStruct) : Prop where
  headSize : m.headSize = 12
  offset : 12 ≤ m.bodyOffset.toInt
  capacity : 0 ≤ m.preBodySize.toInt
  fits : m.bodyOffset.toInt + max m.headInfo.bodyLen.toInt m.preBodySize.toInt < 2 ^ 31
  sized : ∀ block, m.data = some block →
    (block.size : Int) = m.bodyOffset.toInt + m.preBodySize.toInt

/-- The buffer is allocated, covers the current body and starts with the header. -/
structure Ready (layout : IntLayout) (m : RpcStruct) (block : Block) : Prop where
  data : m.data = some block
  size : (block.size : Int) = m.bodyOffset.toInt + m.preBodySize.toInt
  covers : m.headInfo.bodyLen.toInt ≤ m.preBodySize.toInt
  header : block.read 0 12 = (m.headInfo.data layout).map some

variable {layout : IntLayout} {m : RpcStruct} {block : Block}

theorem malloc_eq {size : Int32} (nonneg : 0 ≤ size.toInt) :
    malloc size = some (Block.fresh size.toInt.toNat) := by
  simp [malloc, CInt.nonneg_iff, nonneg]

private theorem realloc_eq {size : Int32} (nonneg : 0 ≤ size.toInt) :
    realloc block size = some (block.resize size.toInt.toNat) := by
  simp [realloc, CInt.nonneg_iff, nonneg]

theorem malloc_none {size : Int32} (negative : size.toInt < 0) : malloc size = none := by
  have less : ¬ 0 ≤ size.toInt := by omega
  simp only [malloc, CInt.nonneg_iff, less, if_false]

theorem realloc_none {size : Int32} (negative : size.toInt < 0) : realloc block size = none := by
  have less : ¬ 0 ≤ size.toInt := by omega
  simp only [realloc, CInt.nonneg_iff, less, if_false]

private theorem allocate_eq (room : m.Room) :
    ∃ pre block, m.allocate = (pre, some block) ∧
      pre.toInt = max m.headInfo.bodyLen.toInt m.preBodySize.toInt ∧
      (block.size : Int) = m.bodyOffset.toInt + pre.toInt ∧
      ∀ old, m.data = some old → ∀ offset length, offset + length ≤ old.size →
        block.read offset length = old.read offset length := by
  have offset := room.offset
  have capacity := room.capacity
  have fits := room.fits
  unfold allocate
  by_cases grow : m.preBodySize < m.headInfo.bodyLen
  · have larger := Int32.lt_iff_toInt_lt.mp grow
    have sum : (m.bodyOffset + m.headInfo.bodyLen).toInt =
        m.bodyOffset.toInt + m.headInfo.bodyLen.toInt := CInt.toInt_add _ _ (by omega) (by omega)
    simp only [grow, if_true]
    cases found : m.data with
    | none =>
      rw [malloc_eq (by omega)]
      refine ⟨_, _, rfl, by omega, ?_, ?_⟩
      · rw [Block.size_fresh, sum]
        omega
      · intro old absent
        cases absent
    | some current =>
      have size := room.sized current found
      dsimp only
      rw [realloc_eq (by omega)]
      refine ⟨_, _, rfl, by omega, ?_, ?_⟩
      · rw [Block.size_resize, sum]
        omega
      · intro old same offset length inside
        cases same
        exact Block.read_resize _ inside
  · have smaller := Int32.not_lt.mp grow
    have bound := Int32.le_iff_toInt_le.mp smaller
    have sum : (m.bodyOffset + m.preBodySize).toInt =
        m.bodyOffset.toInt + m.preBodySize.toInt := CInt.toInt_add _ _ (by omega) (by omega)
    simp only [grow, if_false]
    cases found : m.data with
    | none =>
      rw [malloc_eq (by omega)]
      refine ⟨_, _, rfl, by omega, ?_, ?_⟩
      · rw [Block.size_fresh, sum]
        omega
      · intro old absent
        cases absent
    | some current =>
      refine ⟨_, _, rfl, by omega, room.sized current found, ?_⟩
      intro old same offset length _
      cases same
      rfl

theorem memcpy_eq {offset length : Int32} {source : List Cell} (start : 0 ≤ offset.toInt)
    (nonneg : 0 ≤ length.toInt) (enough : length.toInt ≤ source.length)
    (inside : offset.toInt + length.toInt ≤ block.size) :
    memcpy block offset source length =
      .ok (block.write offset.toInt.toNat (source.take length.toInt.toNat)) := by
  have allowed : 0 ≤ length ∧ length.toNatClampNeg ≤ source.length ∧ 0 ≤ offset ∧
      offset.toNatClampNeg + length.toNatClampNeg ≤ block.size := by
    simp only [CInt.nonneg_iff, CInt.toNatClampNeg_eq]
    omega
  simp [memcpy, allowed]

/-! The three ways `new_data` can end, by what the allocation gave. -/

theorem newData_of_none {pre : Int32} (failed : m.allocate = (pre, none)) :
    m.newData layout = .error .assertion := by
  simp [newData, failed]

theorem newData_of_short {pre : Int32} (allocated : m.allocate = (pre, some block))
    (headSize : m.headSize = 12) (short : block.size < 12) :
    m.newData layout = .error .outOfBounds := by
  have twelve : (12 : Int32).toNatClampNeg = 12 := rfl
  have zero : (0 : Int32).toNatClampNeg = 0 := rfl
  have outside : ¬ (0 : Int32).toNatClampNeg + (12 : Int32).toNatClampNeg ≤ block.size := by
    rw [twelve, zero]
    omega
  have failed : memcpy block 0 ((m.headInfo.data layout).map some) m.headSize =
      .error .outOfBounds := by
    simp only [memcpy, headSize, outside, and_false, if_false]
  simp [newData, allocated, failed]

theorem newData_of_enough {pre : Int32} (allocated : m.allocate = (pre, some block))
    (headSize : m.headSize = 12) (enough : 12 ≤ block.size) :
    m.newData layout = .ok { m with
      preBodySize := pre
      data := some (block.write 0 ((m.headInfo.data layout).map some)) } := by
  have twelve : (12 : Int32).toInt = 12 := rfl
  have zero : (0 : Int32).toInt = 0 := rfl
  have copied : memcpy block 0 ((m.headInfo.data layout).map some) m.headSize =
      .ok (block.write 0 ((m.headInfo.data layout).map some)) := by
    rw [headSize, memcpy_eq]
    · simp [twelve, List.take_of_length_le]
    · simp
    · simp [twelve]
    · simp [twelve]
    · rw [zero, twelve]
      omega
  simp [newData, allocated, copied]

/-- `new_data` with room: the buffer becomes ready, and what stood behind the
header in the old buffer is still there. -/
theorem newData_eq (layout : IntLayout) (room : m.Room) :
    ∃ pre block, m.newData layout = .ok { m with preBodySize := pre, data := some block } ∧
      pre.toInt = max m.headInfo.bodyLen.toInt m.preBodySize.toInt ∧
      Ready layout { m with preBodySize := pre, data := some block } block ∧
      ∀ old, m.data = some old → ∀ offset length, 12 ≤ offset → offset + length ≤ old.size →
        block.read offset length = old.read offset length := by
  obtain ⟨pre, block, allocated, capacity, size, kept⟩ := allocate_eq room
  have offset := room.offset
  have positive := room.capacity
  refine ⟨pre, block.write 0 ((m.headInfo.data layout).map some),
    newData_of_enough allocated room.headSize (by omega), capacity, ?_, ?_⟩
  · refine ⟨rfl, size, by simp only; omega, ?_⟩
    have whole := Block.read_write block 0 ((m.headInfo.data layout).map some)
    simpa using whole
  · intro old same start length behind inside
    rw [Block.read_write_disjoint, kept old same start length inside]
    right
    simpa using behind

/-- A ready buffer whose sizes fit an `int`: every accessor call succeeds on it. -/
structure Whole (layout : IntLayout) (m : RpcStruct) (block : Block) : Prop
    extends Ready layout m block where
  headSize : m.headSize = 12
  offset : 12 ≤ m.bodyOffset.toInt
  capacity : 0 ≤ m.preBodySize.toInt
  fits : m.bodyOffset.toInt + m.preBodySize.toInt < 2 ^ 31
  body : 0 ≤ m.headInfo.bodyLen.toInt

theorem Whole.room (whole : Whole layout m block) : m.Room where
  headSize := whole.headSize
  offset := whole.offset
  capacity := whole.capacity
  fits := by
    have covers := whole.covers
    have fits := whole.fits
    omega
  sized other same := by
    cases whole.data.symm.trans same
    exact whole.size

/-- The first call that allocates leaves a whole buffer. -/
theorem newData_whole (layout : IntLayout) (room : m.Room) (body : 0 ≤ m.headInfo.bodyLen.toInt) :
    ∃ pre block, m.newData layout = .ok { m with preBodySize := pre, data := some block } ∧
      Whole layout { m with preBodySize := pre, data := some block } block := by
  obtain ⟨pre, block, same, capacity, ready, _⟩ := newData_eq layout room
  have positive := room.capacity
  have bound := room.fits
  refine ⟨pre, block, same, ready, room.headSize, room.offset, ?_, ?_, body⟩
  · simp only
    omega
  · simp only
    omega

/-- On a whole buffer `new_data` rewrites the header it already holds. -/
theorem Whole.newData (whole : Whole layout m block) :
    ∃ fresh, m.newData layout = .ok { m with data := some fresh } ∧
      Whole layout { m with data := some fresh } fresh ∧ fresh.size = block.size ∧
      ∀ offset length, 12 ≤ offset → offset + length ≤ block.size →
        fresh.read offset length = block.read offset length := by
  obtain ⟨pre, fresh, same, capacity, ready, kept⟩ := newData_eq layout whole.room
  have covers := whole.covers
  have equal : pre = m.preBodySize := by
    apply Int32.toInt_inj.mp
    omega
  subst equal
  have size := ready.size
  have before := whole.size
  refine ⟨fresh, same, ⟨ready, whole.headSize, whole.offset, whole.capacity, whole.fits,
    whole.body⟩, ?_, kept block whole.data⟩
  simp only at size
  omega

/-- A copy behind the header stays inside a whole buffer and leaves the header alone. -/
theorem Whole.copyIn (whole : Whole layout m block) (offset length : Int32) (source : List Cell)
    (behind : 12 ≤ offset.toInt) (nonneg : 0 ≤ length.toInt) (enough : length.toInt ≤ source.length)
    (inside : offset.toInt + length.toInt ≤ block.size) :
    m.copyIn offset source length =
        .ok { m with
          data := some (block.write offset.toInt.toNat (source.take length.toInt.toNat)) } ∧
      Whole layout
        { m with data := some (block.write offset.toInt.toNat (source.take length.toInt.toNat)) }
        (block.write offset.toInt.toNat (source.take length.toInt.toNat)) := by
  constructor
  · simp only [RpcStruct.copyIn, whole.data]
    rw [memcpy_eq (by omega) nonneg enough inside]
  · refine ⟨⟨rfl, whole.size, whole.covers, ?_⟩, whole.headSize, whole.offset, whole.capacity,
      whole.fits, whole.body⟩
    rw [Block.read_write_disjoint, whole.header]
    left
    omega

/-- What the setters do to one field of a whole buffer: the field holds the
source, and every range behind the header that avoids the field is unchanged. -/
structure Refilled (layout : IntLayout) (m next : RpcStruct) (block : Block) (offset length : Nat)
    (source : List Cell) (fresh : Block) : Prop where
  same : next = { m with data := some fresh }
  whole : Whole layout next fresh
  size : fresh.size = block.size
  field : fresh.read offset length = source.take length
  other : ∀ start count, 12 ≤ start → start + count ≤ block.size →
    start + count ≤ offset ∨ offset + length ≤ start →
      fresh.read start count = block.read start count

/-- `new_data` followed by a copy of a field behind the header. -/
theorem Whole.refill (whole : Whole layout m block) {offset length : Int32} {source : List Cell}
    (behind : 12 ≤ offset.toInt) (nonneg : 0 ≤ length.toInt) (enough : length.toInt ≤ source.length)
    (inside : offset.toInt + length.toInt ≤ block.size) :
    ∃ middle next fresh, m.newData layout = .ok { m with data := some middle } ∧
      ({ m with data := some middle } : RpcStruct).copyIn offset source length = .ok next ∧
      Refilled layout m next block offset.toInt.toNat length.toInt.toNat source fresh := by
  obtain ⟨middle, same, ready, size, kept⟩ := whole.newData
  have copied := ready.copyIn offset length source behind nonneg enough (by omega)
  refine ⟨middle, _, _, same, copied.1, rfl, copied.2, size, ?_, ?_⟩
  · have back := Block.read_write middle offset.toInt.toNat (source.take length.toInt.toNat)
    rw [List.length_take, Nat.min_eq_left (by omega)] at back
    exact back
  · intro start count low high disjoint
    rw [Block.read_write_disjoint, kept start count low high]
    rw [List.length_take, Nat.min_eq_left (by omega)]
    exact disjoint

theorem setBody_eq (whole : Whole layout m block) (msg : List Cell)
    (enough : m.headInfo.bodyLen.toInt ≤ msg.length) :
    ∃ next fresh, m.setBody layout msg = .ok next ∧
      Refilled layout m next block m.bodyOffset.toInt.toNat m.headInfo.bodyLen.toInt.toNat msg
        fresh := by
  have covers := whole.covers
  have size := whole.size
  obtain ⟨middle, next, fresh, first, second, refilled⟩ :=
    whole.refill whole.offset whole.body enough (by omega)
  refine ⟨next, fresh, ?_, refilled⟩
  rw [setBody, first]
  exact second

theorem setMeta_eq (whole : Whole layout m block) (msg : List Cell)
    (behind : 12 ≤ m.metaOffset.toInt) (nonneg : 0 ≤ m.headInfo.metaLen.toInt)
    (enough : m.headInfo.metaLen.toInt ≤ msg.length)
    (inside : m.metaOffset.toInt + m.headInfo.metaLen.toInt ≤ m.bodyOffset.toInt) :
    ∃ next fresh, m.setMeta layout msg = .ok next ∧
      Refilled layout m next block m.metaOffset.toInt.toNat m.headInfo.metaLen.toInt.toNat msg
        fresh := by
  have capacity := whole.capacity
  have size := whole.size
  obtain ⟨middle, next, fresh, first, second, refilled⟩ :=
    whole.refill behind nonneg enough (by omega)
  refine ⟨next, fresh, ?_, refilled⟩
  rw [setMeta, first]
  exact second

/-- `data()` over `data_len()` of a whole buffer: header, meta and body in this order. -/
theorem Whole.frame (whole : Whole layout m block) :
    m.frame = .ok ((m.headInfo.data layout).map some ++
      block.read 12 (m.bodyOffset.toInt.toNat - 12) ++
      block.read m.bodyOffset.toInt.toNat m.headInfo.bodyLen.toInt.toNat) := by
  have covers := whole.covers
  have size := whole.size
  have fits := whole.fits
  have offset := whole.offset
  have body := whole.body
  have length : m.dataLen.toInt = m.headInfo.bodyLen.toInt + m.bodyOffset.toInt :=
    CInt.toInt_add _ _ (by omega) (by omega)
  have inside : 0 ≤ m.dataLen ∧ m.dataLen.toNatClampNeg ≤ block.size := by
    rw [CInt.nonneg_iff, CInt.toNatClampNeg_eq, length]
    omega
  have split : m.dataLen.toInt.toNat =
      12 + (m.bodyOffset.toInt.toNat - 12) + m.headInfo.bodyLen.toInt.toNat := by omega
  have middle : 12 + (m.bodyOffset.toInt.toNat - 12) = m.bodyOffset.toInt.toNat := by omega
  simp only [RpcStruct.frame, whole.data, inside, and_self, if_true]
  rw [CInt.toNatClampNeg_eq, split, Block.read_append, Block.read_append, Nat.zero_add,
    Nat.zero_add,
    middle, whole.header]

/-! ### What the calls leave alone -/

variable {next : RpcStruct}

theorem newData_frame (called : m.newData layout = .ok next) :
    next = { m with preBodySize := next.preBodySize, data := next.data } := by
  unfold RpcStruct.newData at called
  split at called
  · cases called
  · split at called
    · cases called
    · cases called
      rfl

theorem setHead_frame {rt : RpcStructHead} (called : m.setHead layout rt = .ok next) :
    next = { m with headInfo := rt, preBodySize := next.preBodySize, data := next.data } := by
  have frame := newData_frame called
  exact frame

theorem copyIn_frame {offset length : Int32} {source : List Cell}
    (called : m.copyIn offset source length = .ok next) : next = { m with data := next.data } := by
  unfold RpcStruct.copyIn at called
  split at called
  · cases called
  · split at called
    · cases called
    · cases called
      rfl

theorem setBody_frame {msg : List Cell} (called : m.setBody layout msg = .ok next) :
    next = { m with preBodySize := next.preBodySize, data := next.data } := by
  unfold RpcStruct.setBody at called
  split at called
  · cases called
  · rename_i ready grown
    rw [copyIn_frame called, newData_frame grown]

theorem setMeta_frame {msg : List Cell} (called : m.setMeta layout msg = .ok next) :
    next = { m with preBodySize := next.preBodySize, data := next.data } := by
  unfold RpcStruct.setMeta at called
  split at called
  · cases called
  · rename_i ready grown
    rw [copyIn_frame called, newData_frame grown]

end RpcLoop.RpcStruct
