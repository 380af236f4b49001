import RpcLoop.Asio.Timer
import RpcLoop.Foundation.CInt
import RpcLoop.Foundation.Memory
import RpcLoop.Message.Head

/-! `RPCStruct`: one request or reply with its lazily grown buffer, its status
and its timeout timer. -/

namespace RpcLoop

open Foundation Asio

/-- A shared object, named by the order of its allocation. -/
abbrev Ptr := Nat

/-- How a call ends the program or leaves defined behaviour. -/
inductive Fault where
  | assertion
  | outOfBounds
  deriving DecidableEq, Repr

/-- A negative `int` converts to a `size_t` that no allocation can satisfy. -/
def malloc (size : Int32) : Option Block :=
  if 0 ≤ size then some (Block.fresh size.toNatClampNeg) else none

def realloc (block : Block) (size : Int32) : Option Block :=
  if 0 ≤ size then some (block.resize size.toNatClampNeg) else none

/-- Copy the first `length` cells of a source to an offset of a block. -/
def memcpy (block : Block) (offset : Int32) (source : List Cell) (length : Int32) :
    Except Fault Block :=
  if 0 ≤ length ∧ length.toNatClampNeg ≤ source.length ∧ 0 ≤ offset ∧
      offset.toNatClampNeg + length.toNatClampNeg ≤ block.size then
    .ok (block.write offset.toNatClampNeg (source.take length.toNatClampNeg))
  else .error .outOfBounds

structure RpcStruct where
  headInfo : RpcStructHead
  headSize : Int32
  headOffset : Int32
  metaOffset : Int32
  bodyOffset : Int32
  status : ClientStatusType
  data : Option Block
  preBodySize : Int32
  timer : DeadlineTimer
  eraseFlag : ClientStatusType

namespace RpcStruct

/-- The constructor that takes a received header. The offsets are fixed here. -/
def ofHead (rt : RpcStructHead) (pbs : Int32 := 1024 * 2) : RpcStruct where
  headInfo := rt
  headSize := RpcStructHead.dataLen
  headOffset := 0
  metaOffset := 0 + RpcStructHead.dataLen
  bodyOffset := 0 + RpcStructHead.dataLen + rt.metaLen
  status := .unknown
  data := none
  preBodySize := pbs
  timer := {}
  eraseFlag := .unknown

/-- The constructor that takes no header. -/
def new (pbs : Int32 := 1024 * 2) : RpcStruct := ofHead {} pbs

/-- The allocation `new_data` performs: the body capacity and the block after it. -/
def allocate (m : RpcStruct) : Int32 × Option Block :=
  if m.preBodySize < m.headInfo.bodyLen then
    match m.data with
    | none => (m.headInfo.bodyLen, malloc (m.bodyOffset + m.headInfo.bodyLen))
    | some block => (m.headInfo.bodyLen, realloc block (m.bodyOffset + m.headInfo.bodyLen))
  else
    match m.data with
    | none => (m.preBodySize, malloc (m.bodyOffset + m.preBodySize))
    | some block => (m.preBodySize, some block)

variable (layout : IntLayout)

/-- `new_data()`: grow the buffer when the body needs it, then write the header. -/
def newData (m : RpcStruct) : Except Fault RpcStruct :=
  match m.allocate with
  | (_, none) => .error .assertion
  | (preBodySize, some block) =>
    match memcpy block 0 ((m.headInfo.data layout).map some) m.headSize with
    | .error fault => .error fault
    | .ok written => .ok { m with preBodySize := preBodySize, data := some written }

/-- Copy into the buffer that `new_data` has made sure of. -/
def copyIn (m : RpcStruct) (offset : Int32) (source : List Cell) (length : Int32) :
    Except Fault RpcStruct :=
  match m.data with
  | none => .error .assertion
  | some block =>
    match memcpy block offset source length with
    | .error fault => .error fault
    | .ok written => .ok { m with data := some written }

/-- `head(rt)`. -/
def setHead (m : RpcStruct) (rt : RpcStructHead) : Except Fault RpcStruct :=
  newData layout { m with headInfo := rt }

/-- `body(msg)`. -/
def setBody (m : RpcStruct) (msg : List Cell) : Except Fault RpcStruct :=
  match m.newData layout with
  | .error fault => .error fault
  | .ok ready => ready.copyIn ready.bodyOffset msg ready.headInfo.bodyLen

/-- `body()`; the returned pointer is the buffer at `body_offset`. -/
def body (m : RpcStruct) : Except Fault RpcStruct := m.newData layout

/-- `meta(msg)`. -/
def setMeta (m : RpcStruct) (msg : List Cell) : Except Fault RpcStruct :=
  match m.newData layout with
  | .error fault => .error fault
  | .ok ready => ready.copyIn ready.metaOffset msg ready.headInfo.metaLen

/-- `meta()`; the returned pointer is the buffer at `meta_offset`. -/
def metaPart (m : RpcStruct) : Except Fault RpcStruct := m.newData layout

/-- `recv_msg_buff()`; the returned pointer is the buffer at `meta_offset`. -/
def recvMsgBuff (m : RpcStruct) : Except Fault RpcStruct := m.newData layout

/-- `recv_msg_len()`. -/
def recvMsgLen (m : RpcStruct) : Int32 := m.headInfo.bodyLen + m.headInfo.metaLen

/-- `data_len()`. -/
def dataLen (m : RpcStruct) : Int32 := m.headInfo.bodyLen + m.bodyOffset

/-- The cells of the buffer from an offset on, as a reader of the pointer sees them. -/
def cells (m : RpcStruct) (offset length : Int32) : List Cell :=
  match m.data with
  | none => []
  | some block => block.read offset.toNatClampNeg length.toNatClampNeg

/-- `buffer(data(), data_len())`, what a write transmits. -/
def frame (m : RpcStruct) : Except Fault (List Cell) :=
  match m.data with
  | none => .error .assertion
  | some block =>
    if 0 ≤ m.dataLen ∧ m.dataLen.toNatClampNeg ≤ block.size then
      .ok (block.read 0 m.dataLen.toNatClampNeg)
    else .error .outOfBounds

/-- Bytes received into `buffer(recv_msg_buff(), length)`. -/
def receive (m : RpcStruct) (bytes : List UInt8) (length : Int32) : Except Fault RpcStruct :=
  m.copyIn m.metaOffset (bytes.map some) length

/-- `do_init_timer()`; the expiry time is set twice before the wait starts. -/
def doInitTimer (m : RpcStruct) : RpcStruct :=
  { m with timer := m.timer.expiresFromNow.expiresFromNow.asyncWait }

/-- `do_close_timer()`. -/
def doCloseTimer (m : RpcStruct) : RpcStruct := { m with timer := m.timer.cancel }

/-- `set_status(v)`. -/
def setStatus (m : RpcStruct) (v : ClientStatusType) : RpcStruct :=
  { m.doCloseTimer with status := v }

/-- `set_timeout(error)`. -/
def setTimeout (m : RpcStruct) (error : Bool) : RpcStruct :=
  if !error then m.setStatus .timeout else m

end RpcStruct

/-- `meta_s`, the nine characters of `"12345678"` with its terminator. -/
def metaText : List Cell :=
  [49, 50, 51, 52, 53, 54, 55, 56, 0].map some

end RpcLoop
