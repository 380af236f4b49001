import RpcLoop.Message.Receiving

/-! The two ways of building a receive buffer, compared. A client fills the
object it made for a known request, the server and a client that does not know
the request build theirs from the header. -/

namespace RpcLoop.RpcStruct

open Foundation

/-- The accessors of a received message, one after the other. -/
structure Decoded where
  metaPart : List Cell
  body : List Cell
  dataLen : Int32
  data : List Cell

variable (layout : IntLayout)

/-- `meta()` over `meta_len`, `body()` over `body_len` and `data()` over `data_len()`. -/
def decode (m : RpcStruct) : Except Fault Decoded := do
  let m ← m.metaPart layout
  let metaPart := m.cells m.metaOffset m.headInfo.metaLen
  let m ← m.body layout
  let body := m.cells m.bodyOffset m.headInfo.bodyLen
  let data ← m.frame
  return { metaPart := metaPart, body := body, dataLen := m.dataLen, data := data }

/-- `RPCStruct(io)`, then `head(h)`, then the payload at `recv_msg_buff()`. -/
def fillKnown (h : RpcStructHead) (payload : List UInt8) : Except Fault RpcStruct := do
  let m ← RpcStruct.new.setHead layout h
  let m ← m.recvMsgBuff layout
  m.receive payload m.recvMsgLen

/-- `RPCStruct(io, h)`, then the payload at `recv_msg_buff()`. -/
def fillReceived (h : RpcStructHead) (payload : List UInt8) : Except Fault RpcStruct := do
  let m ← (RpcStruct.ofHead h).recvMsgBuff layout
  m.receive payload m.recvMsgLen

/-- Both objects take the payload, and their accessors give the same. -/
def DecodeAlike (h : RpcStructHead) (payload : List UInt8) : Prop :=
  ∃ decoded, (fillKnown layout h payload).bind (decode layout) = .ok decoded ∧
    (fillReceived layout h payload).bind (decode layout) = .ok decoded

variable {layout : IntLayout} {m next : RpcStruct} {block : Block} {metaCells bodyCells : List Cell}

theorem bind_eq_ok {α β : Type} {first : Except Fault α} {rest : α → Except Fault β} {result : β} :
    first.bind rest = .ok result ↔ ∃ value, first = .ok value ∧ rest value = .ok result := by
  cases first <;> simp [Except.bind]

theorem Filled.decode (filled : Filled layout m block metaCells bodyCells) :
    m.decode layout = .ok {
      metaPart := metaCells
      body := bodyCells
      dataLen := m.dataLen
      data := (m.headInfo.data layout).map some ++ metaCells ++ bodyCells } := by
  obtain ⟨first, read, once⟩ := filled.newData
  obtain ⟨second, again, twice⟩ := once.newData
  have metaRead := once.cells.1
  have bodyRead := twice.cells.2
  have frame := twice.frame
  simp only at metaRead bodyRead frame
  simp only [RpcStruct.decode, RpcStruct.metaPart, RpcStruct.body, read, again, bind, Except.bind,
    metaRead, bodyRead, frame]
  rfl

private theorem decode_dataLen {decoded : Decoded} (called : m.decode layout = .ok decoded) :
    decoded.dataLen = m.headInfo.bodyLen + m.bodyOffset := by
  simp only [RpcStruct.decode, bind, bind_eq_ok] at called
  obtain ⟨first, read, second, again, data, _, same⟩ := called
  cases same
  have one := newData_frame read
  have two := newData_frame again
  rw [dataLen, two, one]

theorem fillKnown_frame {h : RpcStructHead} {payload : List UInt8}
    (filled : fillKnown layout h payload = .ok next) :
    next.headInfo = h ∧ next.bodyOffset = 20 := by
  simp only [fillKnown, bind, bind_eq_ok] at filled
  obtain ⟨headed, first, ready, second, third⟩ := filled
  have one := setHead_frame first
  have two := newData_frame second
  have three := copyIn_frame third
  rw [three, two, one]
  exact ⟨rfl, rfl⟩

theorem fillReceived_frame {h : RpcStructHead} {payload : List UInt8}
    (filled : fillReceived layout h payload = .ok next) :
    next.headInfo = h ∧ next.bodyOffset = 12 + h.metaLen := by
  simp only [fillReceived, bind, bind_eq_ok] at filled
  obtain ⟨ready, first, second⟩ := filled
  have one := newData_frame first
  have two := copyIn_frame second
  rw [two, one]
  exact ⟨rfl, rfl⟩

/-- Buffers that decode alike have their bodies at the same offset. -/
theorem DecodeAlike.metaLen {h : RpcStructHead} {payload : List UInt8}
    (alike : DecodeAlike layout h payload) : h.metaLen = 8 := by
  obtain ⟨decoded, known, received⟩ := alike
  obtain ⟨first, filledKnown, decodedKnown⟩ := bind_eq_ok.mp known
  obtain ⟨second, filledReceived, decodedReceived⟩ := bind_eq_ok.mp received
  obtain ⟨firstHead, firstOffset⟩ := fillKnown_frame filledKnown
  obtain ⟨secondHead, secondOffset⟩ := fillReceived_frame filledReceived
  have same := (decode_dataLen decodedKnown).symm.trans (decode_dataLen decodedReceived)
  rw [firstHead, firstOffset, secondHead, secondOffset] at same
  have offsets : (12 : Int32) + 8 = 12 + h.metaLen := (Int32.add_right_inj _).mp same
  exact ((Int32.add_right_inj _).mp offsets).symm

private theorem decodeAlike_of_metaLen (layout : IntLayout) {h : RpcStructHead}
    {payload : List UInt8}
    (body : 0 ≤ h.bodyLen.toInt)
    (fits : 12 + h.metaLen.toInt + max h.bodyLen.toInt 2048 ≤ 2 ^ 31 - 1)
    (length : (payload.length : Int) = h.metaLen.toInt + h.bodyLen.toInt)
    (metaLen : h.metaLen = 8) : DecodeAlike layout h payload := by
  have eight : h.metaLen.toInt = 8 := by
    rw [metaLen]
    rfl
  obtain ⟨known, ready, first, firstBlock, setHead, buffer, _, taken, frame, firstFilled⟩ :=
    Grown.new.receive layout h payload metaLen body (by omega) (by omega)
  obtain ⟨received, second, secondBlock, built, _, copied, head, secondFilled⟩ :=
    receive_eq layout h payload (by omega) body (by omega) length
  have knownFill : fillKnown layout h payload = .ok first := by
    simp only [fillKnown, setHead, buffer, bind, Except.bind, taken]
  have receivedFill : fillReceived layout h payload = .ok second := by
    simp only [fillReceived, built, bind, Except.bind, copied]
  obtain ⟨firstHead, firstOffset⟩ := fillKnown_frame knownFill
  obtain ⟨secondHead, secondOffset⟩ := fillReceived_frame receivedFill
  have sameLen : first.dataLen = second.dataLen := by
    rw [dataLen, dataLen, firstHead, secondHead, firstOffset, secondOffset, metaLen]
    rfl
  rw [eight] at secondFilled
  refine ⟨_, bind_eq_ok.mpr ⟨first, knownFill, firstFilled.decode⟩,
    bind_eq_ok.mpr ⟨second, receivedFill, ?_⟩⟩
  have decoded := secondFilled.decode
  rw [secondHead] at decoded
  rw [firstHead, sameLen]
  exact decoded

/-- The two ways of building a receive buffer decode a frame alike exactly when
its header has the meta length of a default-constructed one. -/
theorem decodeAlike_iff (layout : IntLayout) {h : RpcStructHead} {payload : List UInt8}
    (body : 0 ≤ h.bodyLen.toInt)
    (fits : 12 + h.metaLen.toInt + max h.bodyLen.toInt 2048 ≤ 2 ^ 31 - 1)
    (length : (payload.length : Int) = h.metaLen.toInt + h.bodyLen.toInt) :
    DecodeAlike layout h payload ↔ h.metaLen = 8 := by
  constructor
  · exact fun alike => alike.metaLen
  · exact decodeAlike_of_metaLen layout body fits length

theorem sampleFrame_decodeAlike :
    DecodeAlike .littleEndian { head := { reqId := 1, bodySize := 1, metaSize := 8 } }
      [49, 50, 51, 52, 53, 54, 55, 56, 7] := by
  exact (decodeAlike_iff .littleEndian (by decide) (by decide) (by decide)).mpr rfl

/-- A frame without meta data: the known-request object looks for its body
behind the end of the payload. -/
theorem noMeta_decodes_apart :
    ¬ DecodeAlike .littleEndian { head := { reqId := 1, bodySize := 1, metaSize := 0 } } [7] := by
  intro alike
  exact absurd alike.metaLen (by decide)

end RpcLoop.RpcStruct
