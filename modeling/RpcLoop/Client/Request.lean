import RpcLoop.Message.Filled

/-! The messages a client builds: the request `newMsgBuf` queues for writing,
and what `data()` over `data_len()` sends of it. -/

namespace RpcLoop

open Foundation

/-- The header `newMsgBuf` gives a request. -/
def requestHead (reqId msgL : Int32) : RpcStructHead :=
  (({} : RpcStructHead).setReqId reqId).setBodyLen msgL

/-- The request `newMsgBuf` builds; its log line calls `body()` once more. -/
def requestMsg (layout : IntLayout) (reqId : Int32) (msg : List Cell) (msgL : Int32) :
    Except Fault RpcStruct := do
  let res ← RpcStruct.new.setHead layout (requestHead reqId msgL)
  let res ← res.setBody layout msg
  let res ← res.setMeta layout metaText
  res.body layout

/-- `newMsgBuf` succeeds on every message whose frame an `int` can measure. -/
theorem requestMsg_eq (layout : IntLayout) (reqId : Int32) (msg : List Cell) (msgL : Int32)
    (nonneg : 0 ≤ msgL.toInt) (fits : msgL.toInt + 20 < 2 ^ 31) (enough : msgL.toInt ≤ msg.length) :
    ∃ m block, requestMsg layout reqId msg msgL = .ok m ∧ m.headInfo = requestHead reqId msgL ∧
      RpcStruct.Filled layout m block (metaBytes.map some) (msg.take msgL.toInt.toNat) := by
  obtain ⟨headed, middle, built, block, first, second, third, head, filled⟩ :=
    RpcStruct.setBody_setMeta_eq layout (requestHead reqId msgL) msg rfl nonneg fits enough
  obtain ⟨fresh, fourth, again⟩ := filled.newData
  refine ⟨_, fresh, ?_, ?_, again⟩
  · simp only [requestMsg, first, second, third, bind, Except.bind]
    exact fourth
  · exact head

/-- The message that is built has the header it was built for. -/
theorem requestMsg_head {layout : IntLayout} {reqId msgL : Int32} {msg : List Cell}
    {res : RpcStruct} (built : requestMsg layout reqId msg msgL = .ok res) :
    res.headInfo = requestHead reqId msgL := by
  simp only [requestMsg, bind, Except.bind] at built
  split at built
  · cases built
  · rename_i headed first
    split at built
    · cases built
    · rename_i middle second
      split at built
      · cases built
      · rename_i last third
        rw [RpcStruct.newData_frame built, RpcStruct.setMeta_frame third,
          RpcStruct.setBody_frame second, RpcStruct.setHead_frame first]

/-- A request as its caller knows it; the frame of a longer body has no `int` length. -/
structure Request where
  reqId : Int32
  body : List UInt8
  fits : body.length + 20 ≤ 2 ^ 31 - 1

namespace Request

def bodyLen (r : Request) : Int32 := Int32.ofNat r.body.length

/-- The bytes `do_write` sends of the request. -/
def encode (layout : IntLayout) (r : Request) : Option (List UInt8) := do
  let m ← (requestMsg layout r.reqId (r.body.map some) r.bodyLen).toOption
  let cells ← m.frame.toOption
  initialized cells

def head (r : Request) : RpcStructHead := requestHead r.reqId r.bodyLen

theorem toInt_bodyLen (r : Request) : r.bodyLen.toInt = r.body.length := by
  have fits := r.fits
  exact Int32.toInt_ofNat_of_lt (by omega)

/-- Every request has a frame: header, meta data and body, all initialized. -/
theorem encode_eq (layout : IntLayout) (r : Request) :
    r.encode layout = some (r.head.data layout ++ metaBytes ++ r.body) := by
  have length := r.toInt_bodyLen
  have fits := r.fits
  obtain ⟨m, block, built, head, filled⟩ := requestMsg_eq layout r.reqId
    (r.body.map some) r.bodyLen (by omega) (by omega) (by simp [length])
  have all : (r.body.map some).take r.bodyLen.toInt.toNat = r.body.map some := by
    rw [List.take_of_length_le]
    simp [length]
  have frame := filled.frame
  rw [all, head, ← List.map_append, ← List.map_append] at frame
  simp only [encode, built, frame, Except.toOption, Option.bind_eq_bind, Option.bind_some]
  exact initialized_map_some _

end Request

end RpcLoop
