import RpcLoop.Foundation.IntLayout

/-! The twelve-byte header that starts every frame (`RPC_MSG_HEAD` and its
wrapper `RPCStructHead`) and the status values shared by client and server. -/

namespace RpcLoop

open Foundation

inductive ClientStatusType where
  | write
  | writeOk
  | read
  | readOk
  | timeout
  | eraseState
  | eraseExec
  | conn
  | connClose
  | connOk
  | error
  | ok
  | unknown
  deriving DecidableEq, Repr

/-- `RPC_MSG_HEAD`. -/
structure RpcMsgHead where
  reqId : Int32
  bodySize : Int32
  metaSize : Int32
  deriving DecidableEq, Repr

/-- `RPCStructHead`, with the values its constructor sets. -/
structure RpcStructHead where
  head : RpcMsgHead := { reqId := -1, bodySize := -1, metaSize := 8 }
  deriving DecidableEq, Repr

namespace RpcStructHead

def reqId (rt : RpcStructHead) : Int32 := rt.head.reqId

def bodyLen (rt : RpcStructHead) : Int32 := rt.head.bodySize

def metaLen (rt : RpcStructHead) : Int32 := rt.head.metaSize

def setReqId (rt : RpcStructHead) (value : Int32) : RpcStructHead where
  head := { rt.head with reqId := value }

def setBodyLen (rt : RpcStructHead) (value : Int32) : RpcStructHead where
  head := { rt.head with bodySize := value }

/-- `sizeof(RPC_MSG_HEAD)`. -/
def dataLen : Int32 := 12

/-- The bytes at `data()`: the three members in declaration order. -/
def data (layout : IntLayout) (rt : RpcStructHead) : List UInt8 :=
  layout.encode rt.head.reqId ++ layout.encode rt.head.bodySize ++ layout.encode rt.head.metaSize

/-- The header found after `dataLen` bytes were received into `data()`. -/
def ofData (layout : IntLayout) (bytes : List UInt8) : RpcStructHead where
  head :=
    { reqId := layout.decode (bytes.take 4)
      bodySize := layout.decode ((bytes.drop 4).take 4)
      metaSize := layout.decode ((bytes.drop 8).take 4) }

@[simp] theorem length_data (layout : IntLayout) (rt : RpcStructHead) :
    (rt.data layout).length = 12 := by
  simp [data, layout.length_encode]

theorem ofData_data (layout : IntLayout) (rt : RpcStructHead) :
    ofData layout (rt.data layout) = rt := by
  obtain ⟨⟨reqId, bodySize, metaSize⟩⟩ := rt
  simp [ofData, data, List.drop_append, List.drop_of_length_le,
    List.take_of_length_le, layout.length_encode, layout.decode_encode]

end RpcStructHead

end RpcLoop
