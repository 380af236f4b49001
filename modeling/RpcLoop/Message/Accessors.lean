import RpcLoop.Foundation.Machine
import RpcLoop.Message.Filled

/-! Any sequence of accessor calls on one message. The buffer grows with the
largest body and never shrinks; every call writes the header again, and what was
written behind it stays where it is. -/

namespace RpcLoop

open Foundation

/-- The calls that go through `new_data`; `receive` is `recv_msg_buff()` whose
result is then filled with `recv_msg_len()` bytes. -/
inductive BufferCall where
  | head (rt : RpcStructHead)
  | setBody (msg : List Cell)
  | setMeta (msg : List Cell)
  | body
  | metaPart
  | receive (bytes : List UInt8)

/-- A message with the meta data and the body that were written into it last. -/
structure BufferUse where
  obj : RpcStruct
  metaCells : Option (List Cell)
  bodyCells : Option (List Cell)

namespace BufferCall

/-- The header during and after a call. -/
def header (current : RpcStructHead) : BufferCall → RpcStructHead
  | .head rt => rt
  | _ => current

/-- The source of a copy is long enough. -/
def Supplied (rt : RpcStructHead) : BufferCall → Prop
  | .setBody msg => rt.bodyLen.toInt ≤ msg.length
  | .setMeta msg => rt.metaLen.toInt ≤ msg.length
  | .receive bytes => (bytes.length : Int) = rt.metaLen.toInt + rt.bodyLen.toInt
  | _ => True

instance (rt : RpcStructHead) : (call : BufferCall) → Decidable (call.Supplied rt)
  | .setBody msg => inferInstanceAs (Decidable (rt.bodyLen.toInt ≤ msg.length))
  | .setMeta msg => inferInstanceAs (Decidable (rt.metaLen.toInt ≤ msg.length))
  | .receive bytes =>
    inferInstanceAs (Decidable ((bytes.length : Int) = rt.metaLen.toInt + rt.bodyLen.toInt))
  | .head _ | .body | .metaPart => isTrue trivial

/-- Offset and length of the ranges of the buffer that a call writes. -/
def touched (m : RpcStruct) : BufferCall → List (Int32 × Int32)
  | .setBody _ => [(0, m.headSize), (m.bodyOffset, m.headInfo.bodyLen)]
  | .setMeta _ => [(0, m.headSize), (m.metaOffset, m.headInfo.metaLen)]
  | .receive _ => [(0, m.headSize), (m.metaOffset, m.recvMsgLen)]
  | _ => [(0, m.headSize)]

def writesBody : BufferCall → Bool
  | .setBody _ => true
  | .receive _ => true
  | _ => false

end BufferCall

namespace BufferUse

/-- A message made with a header; the constructor without one uses the default header. -/
def start (rt : RpcStructHead) : BufferUse where
  obj := .ofHead rt
  metaCells := none
  bodyCells := none

def step (layout : IntLayout) (s : BufferUse) : BufferCall → Option BufferUse
  | .head rt => do
    let obj ← (s.obj.setHead layout rt).toOption
    return { s with obj := obj }
  | .setBody msg => do
    let obj ← (s.obj.setBody layout msg).toOption
    return { s with obj := obj, bodyCells := some (msg.take obj.headInfo.bodyLen.toNatClampNeg) }
  | .setMeta msg => do
    let obj ← (s.obj.setMeta layout msg).toOption
    return { s with obj := obj, metaCells := some (msg.take obj.headInfo.metaLen.toNatClampNeg) }
  | .body => do
    let obj ← (s.obj.body layout).toOption
    return { s with obj := obj }
  | .metaPart => do
    let obj ← (s.obj.metaPart layout).toOption
    return { s with obj := obj }
  | .receive bytes => do
    let ready ← (s.obj.recvMsgBuff layout).toOption
    let obj ← (ready.receive bytes ready.recvMsgLen).toOption
    let metaLen := obj.headInfo.metaLen.toNatClampNeg
    return {
      obj := obj
      metaCells := some ((bytes.take metaLen).map some)
      bodyCells := some ((bytes.drop metaLen).map some) }

def machine (layout : IntLayout) : Machine BufferUse BufferCall where
  step := step layout

/-- A header with the meta length of construction whose message fits an `int`. -/
structure Fits (made rt : RpcStructHead) : Prop where
  metaLen : rt.metaLen = made.metaLen
  nonneg : 0 ≤ made.metaLen.toInt
  body : 0 ≤ rt.bodyLen.toInt
  fits : 12 + made.metaLen.toInt + max rt.bodyLen.toInt 2048 ≤ 2 ^ 31 - 1

/-- Every call is made under a header that fits, with a source that is long enough. -/
def Allowed (made : RpcStructHead) : RpcStructHead → List BufferCall → Prop
  | _, [] => True
  | current, call :: rest =>
    Fits made (call.header current) ∧ call.Supplied (call.header current) ∧
      Allowed made (call.header current) rest

/-- What holds after a call: the allocation covers the body and all ranges the
call wrote, it starts with the header, the last meta data are in their place, and
the transmitted bytes are header, last meta data and last body while the header
announces the length of that body. -/
structure Sound (layout : IntLayout) (call : BufferCall) (s : BufferUse) (block : Block) :
    Prop where
  data : s.obj.data = some block
  size : (block.size : Int) = s.obj.bodyOffset.toInt + s.obj.preBodySize.toInt
  covers : s.obj.headInfo.bodyLen.toInt ≤ s.obj.preBodySize.toInt
  inside : ∀ range ∈ call.touched s.obj, 0 ≤ range.1.toInt ∧ 0 ≤ range.2.toInt ∧
    range.1.toInt + range.2.toInt ≤ block.size
  header : block.read 0 12 = (s.obj.headInfo.data layout).map some
  metaKept : ∀ cells, s.metaCells = some cells →
    block.read s.obj.metaOffset.toInt.toNat s.obj.headInfo.metaLen.toInt.toNat = cells
  written : call.writesBody = true →
    ∃ cells, s.bodyCells = some cells ∧ (cells.length : Int) = s.obj.headInfo.bodyLen.toInt
  framed : ∀ metaCells bodyCells, s.metaCells = some metaCells → s.bodyCells = some bodyCells →
    (bodyCells.length : Int) = s.obj.headInfo.bodyLen.toInt →
    s.obj.frame = .ok ((s.obj.headInfo.data layout).map some ++ metaCells ++ bodyCells)

/-- What holds before a call: no size overflows, and what was written last is in the buffer. -/
structure Holding (made : RpcStructHead) (s : BufferUse) : Prop where
  nonneg : 0 ≤ made.metaLen.toInt
  headSize : s.obj.headSize = 12
  metaOffset : s.obj.metaOffset = 12
  bodyOffset : s.obj.bodyOffset.toInt = 12 + made.metaLen.toInt
  capacity : 0 ≤ s.obj.preBodySize.toInt
  fits : s.obj.bodyOffset.toInt + s.obj.preBodySize.toInt < 2 ^ 31
  sized : ∀ block, s.obj.data = some block →
    (block.size : Int) = s.obj.bodyOffset.toInt + s.obj.preBodySize.toInt
  metaKept : ∀ cells, s.metaCells = some cells → cells.length = made.metaLen.toInt.toNat ∧
    ∃ block, s.obj.data = some block ∧ block.read 12 cells.length = cells
  bodyKept : ∀ cells, s.bodyCells = some cells → ∃ block, s.obj.data = some block ∧
    s.obj.bodyOffset.toInt.toNat + cells.length ≤ block.size ∧
    block.read s.obj.bodyOffset.toInt.toNat cells.length = cells

variable {layout : IntLayout} {made rt : RpcStructHead} {s : BufferUse} {block : Block}

/-! ### `new_data` -/

theorem Holding.initial (fits : Fits made rt) : Holding made (start made) := by
  have within := fits.fits
  have nonneg := fits.nonneg
  have twelve : (0 + 12 : Int32).toInt = 12 := by decide
  have offset : (RpcStruct.ofHead made).bodyOffset.toInt = 12 + made.metaLen.toInt := by
    have sum := CInt.toInt_add (0 + 12) made.metaLen (by omega) (by omega)
    rw [twelve] at sum
    exact sum
  have capacity : (RpcStruct.ofHead made).preBodySize.toInt = 2048 := rfl
  refine ⟨nonneg, rfl, rfl, offset, ?_, ?_, fun _ absent => ?_, fun _ absent => ?_,
    fun _ absent => ?_⟩
  · simp only [start, capacity]
    omega
  · simp only [start, offset, capacity]
    omega
  · cases absent
  · cases absent
  · cases absent

theorem Holding.newData (layout : IntLayout) (holding : Holding made s) (fits : Fits made rt) :
    ∃ obj block, RpcStruct.newData layout { s.obj with headInfo := rt } = .ok obj ∧
      obj.headInfo = rt ∧ RpcStruct.Whole layout obj block ∧
      Holding made { s with obj := obj } := by
  have offset := holding.bodyOffset
  have capacity := holding.capacity
  have within := holding.fits
  have nonneg := fits.nonneg
  have limit := fits.fits
  have room : ({ s.obj with headInfo := rt } : RpcStruct).Room := by
    refine ⟨holding.headSize, ?_, capacity, ?_, holding.sized⟩
    · simp only
      omega
    · simp only
      omega
  obtain ⟨pre, block, same, larger, ready, kept⟩ := RpcStruct.newData_eq layout room
  simp only at larger
  have body := fits.body
  have whole : RpcStruct.Whole layout
      { s.obj with headInfo := rt, preBodySize := pre, data := some block } block := by
    refine ⟨ready, holding.headSize, ?_, ?_, ?_, body⟩
    · simp only
      omega
    · simp only
      omega
    · simp only
      omega
  have size := ready.size
  simp only at size
  refine ⟨_, block, same, rfl, whole, nonneg, holding.headSize, holding.metaOffset, offset, ?_, ?_,
    ?_, ?_, ?_⟩
  · exact whole.capacity
  · exact whole.fits
  · intro other found
    cases found
    exact size
  · intro cells found
    obtain ⟨length, old, data, read⟩ := holding.metaKept cells found
    have before := holding.sized old data
    refine ⟨length, block, rfl, ?_⟩
    rw [kept old data 12 cells.length (Nat.le_refl _) (by omega), read]
  · intro cells found
    obtain ⟨old, data, inside, read⟩ := holding.bodyKept cells found
    have before := holding.sized old data
    refine ⟨block, rfl, ?_, ?_⟩
    · simp only
      omega
    · rw [kept old data _ cells.length (by omega) inside, read]

/-! ### Copies -/

theorem Holding.write (holding : Holding made s) (data : s.obj.data = some block) (offset : Nat)
    (cells : List Cell) {metaCells bodyCells : Option (List Cell)}
    (metaKept : ∀ new, metaCells = some new → new.length = made.metaLen.toInt.toNat ∧
      (block.write offset cells).read 12 new.length = new)
    (bodyKept : ∀ new, bodyCells = some new →
      s.obj.bodyOffset.toInt.toNat + new.length ≤ block.size ∧
      (block.write offset cells).read s.obj.bodyOffset.toInt.toNat new.length = new) :
    Holding made {
      obj := { s.obj with data := some (block.write offset cells) }
      metaCells := metaCells
      bodyCells := bodyCells } where
  nonneg := holding.nonneg
  headSize := holding.headSize
  metaOffset := holding.metaOffset
  bodyOffset := holding.bodyOffset
  capacity := holding.capacity
  fits := holding.fits
  sized other found := by
    cases found
    exact holding.sized block data
  metaKept new found := by
    obtain ⟨length, read⟩ := metaKept new found
    exact ⟨length, _, rfl, read⟩
  bodyKept new found := by
    obtain ⟨inside, read⟩ := bodyKept new found
    exact ⟨_, rfl, inside, read⟩

theorem Holding.meta_write (holding : Holding made s) (data : s.obj.data = some block)
    {offset : Nat} (behind : s.obj.bodyOffset.toInt.toNat ≤ offset) (cells : List Cell) :
    ∀ new, s.metaCells = some new → new.length = made.metaLen.toInt.toNat ∧
      (block.write offset cells).read 12 new.length = new := by
  intro new found
  obtain ⟨length, old, same, read⟩ := holding.metaKept new found
  cases data.symm.trans same
  have start := holding.bodyOffset
  have nonneg := holding.nonneg
  refine ⟨length, ?_⟩
  rw [Block.read_write_disjoint, read]
  left
  omega

theorem Holding.body_write (holding : Holding made s) (data : s.obj.data = some block)
    {offset : Nat} {cells : List Cell}
    (front : offset + cells.length ≤ s.obj.bodyOffset.toInt.toNat) :
    ∀ new, s.bodyCells = some new → s.obj.bodyOffset.toInt.toNat + new.length ≤ block.size ∧
      (block.write offset cells).read s.obj.bodyOffset.toInt.toNat new.length = new := by
  intro new found
  obtain ⟨old, same, inside, read⟩ := holding.bodyKept new found
  cases data.symm.trans same
  refine ⟨inside, ?_⟩
  rw [Block.read_write_disjoint, read]
  right
  exact front

/-- What a whole buffer that holds the last meta data and body is worth to its readers. -/
theorem Holding.sound (holding : Holding made s) (whole : RpcStruct.Whole layout s.obj block)
    (metaLen : s.obj.headInfo.metaLen = made.metaLen) {call : BufferCall}
    (inside : ∀ range ∈ call.touched s.obj, 0 ≤ range.1.toInt ∧ 0 ≤ range.2.toInt ∧
      range.1.toInt + range.2.toInt ≤ block.size)
    (written : call.writesBody = true →
      ∃ cells, s.bodyCells = some cells ∧ (cells.length : Int) = s.obj.headInfo.bodyLen.toInt) :
    Sound layout call s block where
  data := whole.data
  size := whole.size
  covers := whole.covers
  inside := inside
  header := whole.header
  metaKept cells found := by
    obtain ⟨length, old, same, read⟩ := holding.metaKept cells found
    cases whole.data.symm.trans same
    rw [holding.metaOffset, metaLen, ← length]
    exact read
  written := written
  framed metaCells bodyCells found also length := by
    obtain ⟨metaLength, old, same, metaRead⟩ := holding.metaKept metaCells found
    cases whole.data.symm.trans same
    obtain ⟨other, again, -, bodyRead⟩ := holding.bodyKept bodyCells also
    cases whole.data.symm.trans again
    have offset := holding.bodyOffset
    have front : s.obj.bodyOffset.toInt.toNat - 12 = metaCells.length := by omega
    have behind : s.obj.headInfo.bodyLen.toInt.toNat = bodyCells.length := by omega
    rw [whole.frame, front, behind, metaRead, bodyRead]

/-! ### Calls -/

theorem header_inside {m : RpcStruct} (whole : RpcStruct.Whole layout m block) :
    0 ≤ (0 : Int32).toInt ∧ 0 ≤ m.headSize.toInt ∧
      (0 : Int32).toInt + m.headSize.toInt ≤ block.size := by
  have zero : (0 : Int32).toInt = 0 := rfl
  have twelve : (12 : Int32).toInt = 12 := rfl
  have size := whole.size
  have offset := whole.offset
  have capacity := whole.capacity
  rw [whole.headSize, zero, twelve]
  omega

/-- Behind `new_data`: a copy to a place behind the header, after which the last
meta data and body are in their places. -/
theorem copy_sound (holding : Holding made s) (whole : RpcStruct.Whole layout s.obj block)
    (fits : Fits made s.obj.headInfo) (call : BufferCall) (offset length : Int32)
    (source : List Cell) (metaCells bodyCells : Option (List Cell))
    (behind : 12 ≤ offset.toInt) (nonneg : 0 ≤ length.toInt) (enough : length.toInt ≤ source.length)
    (inside : offset.toInt + length.toInt ≤ block.size)
    (touches : call.touched s.obj = [(0, s.obj.headSize), (offset, length)])
    (metaKept : ∀ new, metaCells = some new → new.length = made.metaLen.toInt.toNat ∧
      (block.write offset.toInt.toNat (source.take length.toInt.toNat)).read 12 new.length = new)
    (bodyKept : ∀ new, bodyCells = some new →
      s.obj.bodyOffset.toInt.toNat + new.length ≤ block.size ∧
      (block.write offset.toInt.toNat (source.take length.toInt.toNat)).read
        s.obj.bodyOffset.toInt.toNat new.length = new)
    (written : call.writesBody = true →
      ∃ cells, bodyCells = some cells ∧ (cells.length : Int) = s.obj.headInfo.bodyLen.toInt) :
    ∃ next fresh, s.obj.copyIn offset source length = .ok next ∧
      next.headInfo = s.obj.headInfo ∧
      Holding made { obj := next, metaCells := metaCells, bodyCells := bodyCells } ∧
      Sound layout call { obj := next, metaCells := metaCells, bodyCells := bodyCells } fresh := by
  obtain ⟨copied, after⟩ := whole.copyIn offset length source behind nonneg enough inside
  have held := holding.write whole.data offset.toInt.toNat (source.take length.toInt.toNat)
    metaKept bodyKept
  have same (data : Option Block) :
      call.touched { s.obj with data := data } = call.touched s.obj := by
    cases call <;> rfl
  refine ⟨_, _, copied, rfl, held, held.sound after fits.metaLen ?_ written⟩
  intro range member
  simp only [same, touches, List.mem_cons, List.not_mem_nil, or_false] at member
  have front := header_inside after
  rcases member with rfl | rfl
  · exact front
  · simp only [Block.size_write]
    omega

private theorem setBody_sound (holding : Holding made s)
    (whole : RpcStruct.Whole layout s.obj block)
    (fits : Fits made s.obj.headInfo) {msg : List Cell}
    (enough : s.obj.headInfo.bodyLen.toInt ≤ msg.length) :
    ∃ next fresh, s.obj.copyIn s.obj.bodyOffset msg s.obj.headInfo.bodyLen = .ok next ∧
      next.headInfo = s.obj.headInfo ∧
      Holding made { s with
        obj := next, bodyCells := some (msg.take next.headInfo.bodyLen.toNatClampNeg) } ∧
      Sound layout (.setBody msg) { s with
        obj := next, bodyCells := some (msg.take next.headInfo.bodyLen.toNatClampNeg) } fresh := by
  have covers := whole.covers
  have size := whole.size
  have body := whole.body
  have offset := whole.offset
  have length : (msg.take s.obj.headInfo.bodyLen.toInt.toNat).length =
      s.obj.headInfo.bodyLen.toInt.toNat := by
    rw [List.length_take]
    omega
  obtain ⟨next, fresh, copied, same, kept, sound⟩ :=
    copy_sound holding whole fits (.setBody msg) s.obj.bodyOffset s.obj.headInfo.bodyLen msg
      s.metaCells (some (msg.take s.obj.headInfo.bodyLen.toInt.toNat)) offset body enough
      (by omega) rfl (holding.meta_write whole.data (Nat.le_refl _) _)
      (by
        intro new found
        cases found
        exact ⟨by omega, Block.read_write block _ _⟩)
      fun _ => ⟨_, rfl, by rw [length]; exact Int.toNat_of_nonneg body⟩
  refine ⟨next, fresh, copied, same, ?_⟩
  rw [same]
  exact ⟨kept, sound⟩

private theorem setMeta_sound (holding : Holding made s)
    (whole : RpcStruct.Whole layout s.obj block)
    (fits : Fits made s.obj.headInfo) {msg : List Cell}
    (enough : s.obj.headInfo.metaLen.toInt ≤ msg.length) :
    ∃ next fresh, s.obj.copyIn s.obj.metaOffset msg s.obj.headInfo.metaLen = .ok next ∧
      next.headInfo = s.obj.headInfo ∧
      Holding made { s with
        obj := next, metaCells := some (msg.take next.headInfo.metaLen.toNatClampNeg) } ∧
      Sound layout (.setMeta msg) { s with
        obj := next, metaCells := some (msg.take next.headInfo.metaLen.toNatClampNeg) } fresh := by
  have start : s.obj.metaOffset.toInt = 12 := by
    rw [holding.metaOffset]
    rfl
  have size := whole.size
  have capacity := whole.capacity
  have offset := holding.bodyOffset
  have nonneg := holding.nonneg
  have metaLen : s.obj.headInfo.metaLen.toInt = made.metaLen.toInt := by rw [fits.metaLen]
  have length : (msg.take s.obj.headInfo.metaLen.toInt.toNat).length =
      made.metaLen.toInt.toNat := by
    rw [List.length_take]
    omega
  obtain ⟨next, fresh, copied, same, kept, sound⟩ :=
    copy_sound holding whole fits (.setMeta msg) s.obj.metaOffset s.obj.headInfo.metaLen msg
      (some (msg.take s.obj.headInfo.metaLen.toInt.toNat)) s.bodyCells (by omega) (by omega)
      enough (by omega) rfl
      (by
        intro new found
        cases found
        refine ⟨length, ?_⟩
        rw [start]
        exact Block.read_write block 12 _)
      (holding.body_write whole.data (by omega)) fun none => by cases none
  refine ⟨next, fresh, copied, same, ?_⟩
  rw [same]
  exact ⟨kept, sound⟩

private theorem receive_sound (holding : Holding made s)
    (whole : RpcStruct.Whole layout s.obj block)
    (fits : Fits made s.obj.headInfo) {bytes : List UInt8}
    (length : (bytes.length : Int) =
      s.obj.headInfo.metaLen.toInt + s.obj.headInfo.bodyLen.toInt) :
    ∃ next fresh, s.obj.receive bytes s.obj.recvMsgLen = .ok next ∧
      next.headInfo = s.obj.headInfo ∧
      Holding made {
        obj := next
        metaCells := some ((bytes.take next.headInfo.metaLen.toNatClampNeg).map some)
        bodyCells := some ((bytes.drop next.headInfo.metaLen.toNatClampNeg).map some) } ∧
      Sound layout (.receive bytes) {
        obj := next
        metaCells := some ((bytes.take next.headInfo.metaLen.toNatClampNeg).map some)
        bodyCells := some ((bytes.drop next.headInfo.metaLen.toNatClampNeg).map some) } fresh := by
  have start : s.obj.metaOffset.toInt = 12 := by
    rw [holding.metaOffset]
    rfl
  have covers := whole.covers
  have size := whole.size
  have bound := whole.fits
  have body := whole.body
  have offset := holding.bodyOffset
  have nonneg := holding.nonneg
  have metaLen : s.obj.headInfo.metaLen.toInt = made.metaLen.toInt := by rw [fits.metaLen]
  have total : s.obj.recvMsgLen.toInt =
      s.obj.headInfo.bodyLen.toInt + s.obj.headInfo.metaLen.toInt :=
    CInt.toInt_add _ _ (by omega) (by omega)
  have all : (bytes.map some).take s.obj.recvMsgLen.toInt.toNat = bytes.map some :=
    List.take_of_length_le (by rw [List.length_map]; omega)
  -- The bytes read back in two parts.
  have written := Block.read_write block 12 (bytes.map some)
  have split : (bytes.map some).length = made.metaLen.toInt.toNat +
      s.obj.headInfo.bodyLen.toInt.toNat := by
    rw [List.length_map]
    omega
  rw [split, Block.read_append] at written
  have parts := List.append_inj
    (written.trans (List.take_append_drop made.metaLen.toInt.toNat _).symm)
    (by simp only [Block.length_read, List.length_take, List.length_map]; omega)
  obtain ⟨next, fresh, copied, same, kept, sound⟩ :=
    copy_sound holding whole fits (.receive bytes) s.obj.metaOffset s.obj.recvMsgLen
      (bytes.map some) (some ((bytes.take s.obj.headInfo.metaLen.toInt.toNat).map some))
      (some ((bytes.drop s.obj.headInfo.metaLen.toInt.toNat).map some)) (by omega) (by omega)
      (by rw [List.length_map]; omega) (by omega) rfl
      (by
        intro new found
        cases found
        rw [all, start, List.length_map, List.length_take, metaLen]
        refine ⟨by omega, ?_⟩
        rw [Nat.min_eq_left (by omega), List.map_take]
        exact parts.1)
      (by
        intro new found
        cases found
        rw [all, start, List.length_map, List.length_drop, metaLen]
        refine ⟨by omega, ?_⟩
        rw [offset, List.map_drop, ← parts.2]
        congr 1
        · omega
        · omega)
      fun _ => ⟨_, rfl, by rw [List.length_map, List.length_drop]; omega⟩
  refine ⟨next, fresh, copied, same, ?_⟩
  rw [same]
  exact ⟨kept, sound⟩

/-- A call under a header that fits succeeds and leaves a sound buffer. -/
theorem Holding.step (layout : IntLayout) (holding : Holding made s) {call : BufferCall}
    (fits : Fits made (call.header s.obj.headInfo))
    (supplied : call.Supplied (call.header s.obj.headInfo)) :
    ∃ next block, step layout s call = some next ∧
      next.obj.headInfo = call.header s.obj.headInfo ∧ Holding made next ∧
      Sound layout call next block := by
  obtain ⟨obj, block, called, header, whole, held⟩ := holding.newData layout fits
  have metaLen : obj.headInfo.metaLen = made.metaLen := by rw [header, fits.metaLen]
  have front {other : BufferCall} (same : other.touched obj = [(0, obj.headSize)]) :
      ∀ range ∈ other.touched obj, 0 ≤ range.1.toInt ∧ 0 ≤ range.2.toInt ∧
        range.1.toInt + range.2.toInt ≤ block.size := by
    intro range member
    rw [same, List.mem_singleton] at member
    rw [member]
    exact header_inside whole
  cases call with
  | head rt =>
    have sound : Sound layout (.head rt) { s with obj := obj } block :=
      held.sound whole metaLen (front rfl) fun none => by cases none
    refine ⟨_, block, ?_, header, held, sound⟩
    simp only [BufferUse.step, RpcStruct.setHead]
    rw [show RpcStruct.newData layout { s.obj with headInfo := rt } = .ok obj from called]
    rfl
  | body =>
    have sound : Sound layout .body { s with obj := obj } block :=
      held.sound whole metaLen (front rfl) fun none => by cases none
    refine ⟨_, block, ?_, header, held, sound⟩
    simp only [BufferUse.step, RpcStruct.body]
    rw [show s.obj.newData layout = .ok obj from called]
    rfl
  | metaPart =>
    have sound : Sound layout .metaPart { s with obj := obj } block :=
      held.sound whole metaLen (front rfl) fun none => by cases none
    refine ⟨_, block, ?_, header, held, sound⟩
    simp only [BufferUse.step, RpcStruct.metaPart]
    rw [show s.obj.newData layout = .ok obj from called]
    rfl
  | setBody msg =>
    have fitting : Fits made obj.headInfo := by rw [header]; exact fits
    obtain ⟨next, fresh, copied, same, kept, sound⟩ :=
      setBody_sound held whole fitting (by rw [header]; exact supplied)
    refine ⟨_, fresh, ?_, same.trans header, kept, sound⟩
    simp only [BufferUse.step, RpcStruct.setBody]
    rw [show s.obj.newData layout = .ok obj from called]
    simp only [copied]
    rfl
  | setMeta msg =>
    have fitting : Fits made obj.headInfo := by rw [header]; exact fits
    obtain ⟨next, fresh, copied, same, kept, sound⟩ :=
      setMeta_sound held whole fitting (by rw [header]; exact supplied)
    refine ⟨_, fresh, ?_, same.trans header, kept, sound⟩
    simp only [BufferUse.step, RpcStruct.setMeta]
    rw [show s.obj.newData layout = .ok obj from called]
    simp only [copied]
    rfl
  | receive bytes =>
    have fitting : Fits made obj.headInfo := by rw [header]; exact fits
    obtain ⟨next, fresh, copied, same, kept, sound⟩ :=
      receive_sound held whole fitting (by rw [header]; exact supplied)
    refine ⟨_, fresh, ?_, same.trans header, kept, sound⟩
    simp only [BufferUse.step, RpcStruct.recvMsgBuff]
    rw [show s.obj.newData layout = .ok obj from called]
    simp only [Except.toOption, Option.bind_eq_bind, Option.bind_some]
    rw [copied]
    rfl

private theorem run_sound (layout : IntLayout) (holding : Holding made s) {calls : List BufferCall}
    {call : BufferCall} (allowed : Allowed made s.obj.headInfo (calls ++ [call])) :
    ∃ before next block, (machine layout).run s calls = some before ∧
      step layout before call = some next ∧ Sound layout call next block := by
  induction calls generalizing s with
  | nil =>
    obtain ⟨fits, supplied, -⟩ := allowed
    obtain ⟨next, block, taken, -, -, sound⟩ := holding.step layout fits supplied
    exact ⟨s, next, block, rfl, taken, sound⟩
  | cons first rest ih =>
    obtain ⟨fits, supplied, later⟩ := allowed
    obtain ⟨middle, _, taken, header, held, -⟩ := holding.step layout fits supplied
    rw [← header] at later
    obtain ⟨before, next, block, runs, last, sound⟩ := ih held later
    exact ⟨before, next, block, Machine.run_cons_eq_some.mpr ⟨middle, taken, runs⟩, last, sound⟩

/-- Any sequence of accessor calls whose headers keep the meta length of
construction and whose messages fit an `int` succeeds, and leaves after each call
a buffer that covers its body, with the header, the last meta data and the last
body in their places. -/
theorem buffer_sound (layout : IntLayout) (made : RpcStructHead) (calls : List BufferCall)
    (call : BufferCall) (allowed : Allowed made made (calls ++ [call])) :
    ∃ before next block, (machine layout).run (start made) calls = some before ∧
      step layout before call = some next ∧ Sound layout call next block := by
  have fits : ∃ rt, Fits made rt := by
    cases calls with
    | nil => exact ⟨_, allowed.1⟩
    | cons first rest => exact ⟨_, allowed.1⟩
  obtain ⟨rt, fits⟩ := fits
  exact run_sound layout (.initial fits) allowed

/-- A message with a short body that is used again for one above the first capacity. -/
def reused : List BufferCall :=
  [.head { head := { reqId := 1, bodySize := 2, metaSize := 8 } }, .setMeta metaText,
    .setBody [some 5, some 6], .head { head := { reqId := 1, bodySize := 2049, metaSize := 8 } },
    .body, .head { head := { reqId := 2, bodySize := 1, metaSize := 8 } }]

theorem reused_sound : ∃ before next block,
    (machine .littleEndian).run (start {}) reused = some before ∧
      step .littleEndian before (.setBody [some 7]) = some next ∧
      Sound .littleEndian (.setBody [some 7]) next block := by
  refine buffer_sound .littleEndian {} reused (.setBody [some 7]) ?_
  have fits (reqId bodySize : Int32) (low : 0 ≤ bodySize.toInt) (high : bodySize.toInt ≤ 2049) :
      Fits {} { head := { reqId := reqId, bodySize := bodySize, metaSize := 8 } } := by
    refine ⟨rfl, by decide, low, ?_⟩
    have eight : (({} : RpcStructHead).metaLen).toInt = 8 := rfl
    have length : ({ head := { reqId := reqId, bodySize := bodySize, metaSize := 8 } } :
      RpcStructHead).bodyLen = bodySize := rfl
    rw [eight, length]
    omega
  exact ⟨fits 1 2 (by decide) (by decide), trivial, fits 1 2 (by decide) (by decide), by decide,
    fits 1 2 (by decide) (by decide), by decide, fits 1 2049 (by decide) (by decide), trivial,
    fits 1 2049 (by decide) (by decide), trivial, fits 2 1 (by decide) (by decide), trivial,
    fits 2 1 (by decide) (by decide), by decide, trivial⟩

end BufferUse

end RpcLoop
