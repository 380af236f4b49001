import RpcLoop.Message.Buffer

/-! Complete messages. Client and server fill a buffer in different ways; every
way ends with the same three parts at the same places. -/

namespace RpcLoop

open Foundation

/-- The meta bytes a message carries: `meta_s` without its terminator. -/
def metaBytes : List UInt8 := [49, 50, 51, 52, 53, 54, 55, 56]

namespace RpcStruct

/-- A whole buffer with known meta and body cells between which nothing lies. -/
structure Filled (layout : IntLayout) (m : RpcStruct) (block : Block)
    (metaCells bodyCells : List Cell) : Prop extends Whole layout m block where
  metaOffset : m.metaOffset = 12
  bodyOffset : m.bodyOffset.toInt = 12 + m.headInfo.metaLen.toInt
  metaCells : block.read 12 m.headInfo.metaLen.toInt.toNat = metaCells
  bodyCells : block.read m.bodyOffset.toInt.toNat m.headInfo.bodyLen.toInt.toNat = bodyCells

variable {layout : IntLayout} {m : RpcStruct} {block : Block} {metaCells bodyCells : List Cell}

theorem Filled.metaLen_nonneg (filled : Filled layout m block metaCells bodyCells) :
    0 ≤ m.headInfo.metaLen.toInt := by
  have offset := filled.offset
  have same := filled.bodyOffset
  omega

/-- The accessors read what the message was filled with. -/
theorem Filled.cells (filled : Filled layout m block metaCells bodyCells) :
    m.cells m.metaOffset m.headInfo.metaLen = metaCells ∧
      m.cells m.bodyOffset m.headInfo.bodyLen = bodyCells := by
  constructor
  · simp only [RpcStruct.cells, filled.data, filled.metaOffset]
    exact filled.metaCells
  · simp only [RpcStruct.cells, filled.data]
    exact filled.bodyCells

theorem Filled.frame (filled : Filled layout m block metaCells bodyCells) :
    m.frame = .ok ((m.headInfo.data layout).map some ++ metaCells ++ bodyCells) := by
  have length : m.bodyOffset.toInt.toNat - 12 = m.headInfo.metaLen.toInt.toNat := by
    have same := filled.bodyOffset
    have nonneg := filled.metaLen_nonneg
    omega
  rw [filled.toWhole.frame, length, filled.metaCells, filled.bodyCells]

theorem Filled.newData (filled : Filled layout m block metaCells bodyCells) :
    ∃ fresh, m.newData layout = .ok { m with data := some fresh } ∧
      Filled layout { m with data := some fresh } fresh metaCells bodyCells := by
  obtain ⟨fresh, same, whole, _, kept⟩ := filled.toWhole.newData
  have offset := filled.bodyOffset
  have nonneg := filled.metaLen_nonneg
  have covers := filled.covers
  have size := filled.size
  have body := filled.body
  refine ⟨fresh, same, whole, filled.metaOffset, filled.bodyOffset, ?_, ?_⟩
  · rw [← filled.metaCells]
    exact kept _ _ (Nat.le_refl _) (by simp only; omega)
  · rw [← filled.bodyCells]
    exact kept _ _ (by simp only; omega) (by simp only; omega)

theorem setHead_new (layout : IntLayout) {rt : RpcStructHead}
    (body : 0 ≤ rt.bodyLen.toInt) (fits : rt.bodyLen.toInt + 20 < 2 ^ 31) :
    ∃ m block, RpcStruct.new.setHead layout rt = .ok m ∧ Whole layout m block ∧
      m.headInfo = rt ∧ m.metaOffset = 12 ∧ m.bodyOffset = 20 := by
  have capacity : RpcStruct.new.preBodySize.toInt = 2048 := by decide
  have offset : RpcStruct.new.bodyOffset.toInt = 20 := by decide
  have room : ({ RpcStruct.new with headInfo := rt } : RpcStruct).Room := by
    refine ⟨rfl, ?_, ?_, ?_, fun _ absent => by cases absent⟩
    · simp only [offset]
      omega
    · simp only [capacity]
      omega
    · simp only [offset, capacity]
      omega
  obtain ⟨pre, block, same, whole⟩ := newData_whole layout room body
  have metaOffset : RpcStruct.new.metaOffset = 12 := by decide
  have bodyOffset : RpcStruct.new.bodyOffset = 20 := by decide
  exact ⟨_, block, same, whole, rfl, metaOffset, bodyOffset⟩

theorem Refilled.filled {first second : RpcStruct} {start middle final : Block}
    {metaText msg : List Cell} (metaLen : m.headInfo.metaLen = 8) (metaOffset : m.metaOffset = 12)
    (bodyOffset : m.bodyOffset = 20) (whole : Whole layout m start)
    (fields :
      (Refilled layout m first start 12 8 metaText middle ∧
        Refilled layout first second middle 20 m.headInfo.bodyLen.toInt.toNat msg final) ∨
      (Refilled layout m first start 20 m.headInfo.bodyLen.toInt.toNat msg middle ∧
        Refilled layout first second middle 12 8 metaText final)) :
    second.headInfo = m.headInfo ∧ Filled layout second final (metaText.take 8)
      (msg.take m.headInfo.bodyLen.toInt.toNat) := by
  have eight : (8 : Int32).toInt = 8 := by decide
  have twenty : (20 : Int32).toInt = 20 := by decide
  have covers := whole.covers
  have size := whole.size
  have body := whole.body
  rw [bodyOffset, twenty] at size
  rcases fields with ⟨metaFirst, bodyLast⟩ | ⟨bodyFirst, metaLast⟩
  · have untouched := bodyLast.other 12 8 (by omega) (by have := metaFirst.size; omega) (by omega)
    rw [metaFirst.field] at untouched
    have filled := bodyLast.whole
    obtain rfl := metaFirst.same
    obtain rfl := bodyLast.same
    refine ⟨rfl, filled, metaOffset, ?_, ?_, ?_⟩
    · simp only [bodyOffset, metaLen, twenty, eight]
      omega
    · rw [metaLen]
      exact untouched
    · rw [bodyOffset]
      exact bodyLast.field
  · have untouched := metaLast.other 20 m.headInfo.bodyLen.toInt.toNat (by omega)
      (by have := bodyFirst.size; omega) (by omega)
    rw [bodyFirst.field] at untouched
    have filled := metaLast.whole
    obtain rfl := bodyFirst.same
    obtain rfl := metaLast.same
    refine ⟨rfl, filled, metaOffset, ?_, ?_, ?_⟩
    · simp only [bodyOffset, metaLen, twenty, eight]
      omega
    · rw [metaLen]
      exact metaLast.field
    · rw [bodyOffset]
      exact untouched

/-- Two orders of setting the fields of a new message give the same message:
client requests set the body first, server replies the meta data. -/
theorem setBody_setMeta_eq (layout : IntLayout) (rt : RpcStructHead) (msg : List Cell)
    (metaLen : rt.metaLen = 8) (body : 0 ≤ rt.bodyLen.toInt)
    (fits : rt.bodyLen.toInt + 20 < 2 ^ 31) (enough : rt.bodyLen.toInt ≤ msg.length) :
    ∃ headed middle m block, RpcStruct.new.setHead layout rt = .ok headed ∧
      headed.setBody layout msg = .ok middle ∧ middle.setMeta layout metaText = .ok m ∧
      m.headInfo = rt ∧
      Filled layout m block (metaBytes.map some) (msg.take rt.bodyLen.toInt.toNat) := by
  obtain ⟨headed, start, first, whole, rfl, metaOffset, bodyOffset⟩ := setHead_new layout body fits
  obtain ⟨middle, between, second, bodySet⟩ := setBody_eq whole msg enough
  obtain ⟨m, block, third, metaSet⟩ : ∃ m block, middle.setMeta layout metaText = .ok m ∧
      Refilled layout middle m between 12 8 metaText block := by
    have same := bodySet.same
    have offset : middle.metaOffset = 12 := by rw [same]; exact metaOffset
    have length : middle.headInfo.metaLen = 8 := by rw [same]; exact metaLen
    have behind : middle.bodyOffset = 20 := by rw [same]; exact bodyOffset
    have filled := setMeta_eq bodySet.whole metaText
    rw [offset, length, behind] at filled
    exact filled (by decide) (by decide) (by decide) (by decide)
  rw [bodyOffset] at bodySet
  have filled := Refilled.filled metaLen metaOffset bodyOffset whole (.inr ⟨bodySet, metaSet⟩)
  exact ⟨headed, middle, m, block, first, second, third, filled.1, filled.2⟩

theorem setMeta_setBody_eq (layout : IntLayout) (rt : RpcStructHead) (msg : List Cell)
    (metaLen : rt.metaLen = 8) (body : 0 ≤ rt.bodyLen.toInt)
    (fits : rt.bodyLen.toInt + 20 < 2 ^ 31) (enough : rt.bodyLen.toInt ≤ msg.length) :
    ∃ headed middle m block, RpcStruct.new.setHead layout rt = .ok headed ∧
      headed.setMeta layout metaText = .ok middle ∧ middle.setBody layout msg = .ok m ∧
      m.headInfo = rt ∧
      Filled layout m block (metaBytes.map some) (msg.take rt.bodyLen.toInt.toNat) := by
  obtain ⟨headed, start, first, whole, rfl, metaOffset, bodyOffset⟩ := setHead_new layout body fits
  obtain ⟨middle, between, second, metaSet⟩ : ∃ middle between,
      headed.setMeta layout metaText = .ok middle ∧
        Refilled layout headed middle start 12 8 metaText between := by
    have filled := setMeta_eq whole metaText
    rw [metaOffset, metaLen, bodyOffset] at filled
    exact filled (by decide) (by decide) (by decide) (by decide)
  obtain ⟨m, block, third, bodySet⟩ : ∃ m block, middle.setBody layout msg = .ok m ∧
      Refilled layout middle m between 20 headed.headInfo.bodyLen.toInt.toNat msg block := by
    have same := metaSet.same
    have head : middle.headInfo = headed.headInfo := by rw [same]
    have behind : middle.bodyOffset = 20 := by rw [same]; exact bodyOffset
    have filled := setBody_eq metaSet.whole msg
    rw [head, behind] at filled
    exact filled enough
  have filled := Refilled.filled metaLen metaOffset bodyOffset whole (.inl ⟨metaSet, bodySet⟩)
  exact ⟨headed, middle, m, block, first, second, third, filled.1, filled.2⟩

/-- A whole buffer takes the payload that its own header announces. -/
theorem Whole.receive (whole : Whole layout m block) (metaOffset : m.metaOffset = 12)
    (bodyOffset : m.bodyOffset.toInt = 12 + m.headInfo.metaLen.toInt) (payload : List UInt8)
    (length : (payload.length : Int) = m.headInfo.metaLen.toInt + m.headInfo.bodyLen.toInt) :
    m.recvMsgLen.toInt = payload.length ∧
      ∃ fresh, m.receive payload m.recvMsgLen = .ok { m with data := some fresh } ∧
        Filled layout { m with data := some fresh } fresh
          ((payload.take m.headInfo.metaLen.toInt.toNat).map some)
          ((payload.drop m.headInfo.metaLen.toInt.toNat).map some) := by
  have twelve : (12 : Int32).toInt = 12 := by decide
  have covers := whole.covers
  have size := whole.size
  have offset := whole.offset
  have fits := whole.fits
  have body := whole.body
  have total : m.recvMsgLen.toInt = m.headInfo.bodyLen.toInt + m.headInfo.metaLen.toInt :=
    CInt.toInt_add _ _ (by omega) (by omega)
  have copied := whole.copyIn 12 m.recvMsgLen (payload.map some) (by omega) (by omega)
    (by simp only [List.length_map]; omega) (by omega)
  have all : m.recvMsgLen.toInt.toNat = (payload.map some).length := by
    simp only [List.length_map]
    omega
  rw [twelve, all, List.take_length] at copied
  have written := Block.read_write block 12 (payload.map some)
  have split : (payload.map some).length =
      m.headInfo.metaLen.toInt.toNat + m.headInfo.bodyLen.toInt.toNat := by
    simp only [List.length_map]
    omega
  rw [split, Block.read_append] at written
  have parts := List.append_inj
    (written.trans (List.take_append_drop m.headInfo.metaLen.toInt.toNat _).symm)
    (by simp only [Block.length_read, List.length_take, List.length_map]; omega)
  refine ⟨by omega, _, ?_, copied.2, metaOffset, bodyOffset, ?_, ?_⟩
  · rw [← metaOffset] at copied
    simpa only [RpcStruct.receive, metaOffset] using copied.1
  · rw [List.map_take]
    exact parts.1
  · rw [List.map_drop, ← parts.2]
    simp only [bodyOffset]
    congr 1
    omega

/-- An object built from a received header takes the whole payload behind it. -/
theorem receive_eq (layout : IntLayout) (rt : RpcStructHead) (payload : List UInt8)
    (metaLen : 0 ≤ rt.metaLen.toInt) (body : 0 ≤ rt.bodyLen.toInt)
    (fits : 12 + rt.metaLen.toInt + max rt.bodyLen.toInt 2048 < 2 ^ 31)
    (length : (payload.length : Int) = rt.metaLen.toInt + rt.bodyLen.toInt) :
    ∃ ready next block, (RpcStruct.ofHead rt).recvMsgBuff layout = .ok ready ∧
      ready.recvMsgLen.toInt = payload.length ∧
      ready.receive payload ready.recvMsgLen = .ok next ∧ next.headInfo = rt ∧
      Filled layout next block ((payload.take rt.metaLen.toInt.toNat).map some)
        ((payload.drop rt.metaLen.toInt.toNat).map some) := by
  have capacity : (RpcStruct.ofHead rt).preBodySize.toInt = 2048 := rfl
  have sent : (RpcStruct.ofHead rt).headInfo = rt := rfl
  have twelve : (0 + 12 : Int32).toInt = 12 := by decide
  have offset : (RpcStruct.ofHead rt).bodyOffset.toInt = 12 + rt.metaLen.toInt := by
    have sum := CInt.toInt_add (0 + 12) rt.metaLen (by omega) (by omega)
    rw [twelve] at sum
    exact sum
  have room : (RpcStruct.ofHead rt).Room := by
    refine ⟨rfl, by omega, ?_, ?_, fun _ absent => by cases absent⟩
    · omega
    · rw [offset, capacity, sent]
      omega
  obtain ⟨pre, block, same, whole⟩ := newData_whole layout room body
  have start : (RpcStruct.ofHead rt).metaOffset = 12 := rfl
  obtain ⟨announced, fresh, taken, filled⟩ := whole.receive start offset payload length
  exact ⟨_, _, fresh, same, announced, taken, rfl, filled⟩

end RpcStruct

end RpcLoop
