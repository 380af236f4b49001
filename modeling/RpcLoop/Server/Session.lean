import Mathlib.Logic.Function.Basic
import RpcLoop.Foundation.Machine
import RpcLoop.Message.Struct

/-! `link_session`: one server connection. The state holds the members, the
operations asio has outstanding for the session, the bytes received and not yet
read, whether the peer has reset the connection, and the history that the
properties speak about. Handlers run one at a time, so a completion and its
handler are one step. -/

namespace RpcLoop

open Foundation

/-- `CallStruct`, with the allocation its constructor makes for a positive size,
and whether the callback keeps an owner of it besides the one it returns. -/
structure CallStruct where
  size : Int32
  data : List Cell
  allocated : 0 < size → data.length = size.toNatClampNeg
  kept : Bool := false

/-- The arguments of one call of the registered callback. -/
structure Call where
  msg : List Cell
  msgLen : Int32

/-- A callback may keep state, so its result is a function of all calls so far. -/
abbrev CallbackFun := List Call → Option CallStruct

namespace LinkSession

/-- The outstanding `async_read` of a session. -/
inductive Reading where
  | head
  | msg (readBuf : Ptr) (length : Int32)
  | stopped
  deriving DecidableEq

end LinkSession

structure LinkSession where
  heap : Ptr → RpcStruct
  allocated : Ptr
  reading : LinkSession.Reading
  writeMsgs : List Ptr
  writing : List Ptr
  input : List UInt8
  handled : List RpcStruct
  calls : List Call
  replied : List Ptr
  written : List Ptr
  lost : Bool
  released : List CallStruct

namespace LinkSession

/-- A session after `start()`. -/
def start : LinkSession where
  heap _ := .new
  allocated := 0
  reading := .head
  writeMsgs := []
  writing := []
  input := []
  handled := []
  calls := []
  replied := []
  written := []
  lost := false
  released := []

variable (layout : IntLayout) (callFun : Option CallbackFun)

/-- Allocate one object. -/
def alloc (s : LinkSession) (m : RpcStruct) : LinkSession :=
  { s with heap := Function.update s.heap s.allocated m, allocated := s.allocated + 1 }

/-- Change an object through a pointer to it. -/
def store (s : LinkSession) (p : Ptr) (m : RpcStruct) : LinkSession :=
  { s with heap := Function.update s.heap p m }

/-- `do_read()`. -/
def doRead (s : LinkSession) : LinkSession := { s with reading := .head }

/-- `handle_read_header` after success, with the bytes found in the header buffer. -/
def handleReadHeader (s : LinkSession) (bytes : List UInt8) : Option LinkSession := do
  let readBuf ← ((RpcStruct.ofHead (.ofData layout bytes)).recvMsgBuff layout).toOption
  return { s.alloc readBuf with reading := .msg s.allocated readBuf.recvMsgLen }

/-- `do_write()`: the write is started on the front of the deque. -/
def doWrite (s : LinkSession) : Option LinkSession := do
  let front ← s.writeMsgs.head?
  let msg ← ((s.heap front).body layout).toOption
  let _ ← msg.frame.toOption
  return { s.store front msg with
    writing := s.writing ++ [front]
    written := s.written ++ [front] }

/-- The message `reply` builds from a callback's result. -/
def replyMsg (reqId : Int32) (res : CallStruct) : Except Fault RpcStruct := do
  let th := (({} : RpcStructHead).setReqId reqId).setBodyLen res.size
  let newMsg ← RpcStruct.new.setHead layout th
  let newMsg ← newMsg.setMeta layout metaText
  newMsg.setBody layout res.data

/-- `reply(msg)` from `push_back` on. -/
def queueReply (s : LinkSession) (p : Ptr) : Option LinkSession :=
  let queued := { s with writeMsgs := s.writeMsgs ++ [p], replied := s.replied ++ [p] }
  if queued.writeMsgs.isEmpty = false then queued.doWrite layout else some queued

/-- `reply` lets go of a result. Its last owner runs `~CallStruct()`, which deletes
`data_`: a pointer that has no value unless the size was positive. -/
def release (s : LinkSession) (res : CallStruct) : LinkSession :=
  if res.kept then s else { s with released := s.released ++ [res] }

/-- `reply(msg)`: the callback's result, or the request itself where there is none. -/
def reply (s : LinkSession) (p : Ptr) : Option LinkSession :=
  let newMsg := s.allocated
  let s := s.alloc .new
  match callFun with
  | none => s.queueReply layout p
  | some callback => do
    let msg ← ((s.heap p).body layout).toOption
    let call : Call := ⟨msg.cells msg.bodyOffset msg.headInfo.bodyLen, msg.headInfo.bodyLen⟩
    let s := { s.store p msg with calls := s.calls ++ [call] }
    match callback s.calls with
    | none => s.queueReply layout p
    | some res =>
      -- `res` goes out of scope behind `push_back`, which does not look at it
      if 0 < res.size then
        let built ← (replyMsg layout msg.headInfo.reqId res).toOption
        ((s.store newMsg built).release res).queueReply layout newMsg
      else (s.release res).queueReply layout p

/-- `handle_read_msg` after success: reply first, then read the next header. The
peer's address is logged before, and `remote_endpoint()` throws when the
connection has been reset. -/
def handleReadMsg (s : LinkSession) (p : Ptr) : Option LinkSession :=
  if s.lost then none
  else do
    let msg ← ((s.heap p).body layout).toOption
    let s := { s.store p msg with handled := s.handled ++ [msg] }
    let s ← s.reply layout callFun p
    return s.doRead

/-- `handle_write` after success: the front is dropped, whatever was written. -/
def handleWrite (s : LinkSession) : Option LinkSession :=
  match s.writeMsgs with
  | [] => none
  | _ :: rest =>
    let popped := { s with writeMsgs := rest }
    if rest.isEmpty = false then popped.doWrite layout else some popped

/-- What asio delivers to a session. A failed read ends the reading loop and a
failed write is only logged. -/
inductive Event where
  | arrive (bytes : List UInt8)
  | readOk
  | readError
  | writeOk (index : Nat)
  | writeError (index : Nat)
  deriving DecidableEq

/-- The outstanding read completes once all the bytes it asked for are there. -/
def completeRead (s : LinkSession) : Option LinkSession :=
  match s.reading with
  | .stopped => none
  | .head =>
    if 12 ≤ s.input.length then
      { s with input := s.input.drop 12 }.handleReadHeader layout (s.input.take 12)
    else none
  | .msg p length =>
    if 0 ≤ length ∧ length.toNatClampNeg ≤ s.input.length then do
      let msg ← ((s.heap p).receive (s.input.take length.toNatClampNeg) length).toOption
      { s.store p msg with input := s.input.drop length.toNatClampNeg }.handleReadMsg
        layout callFun p
    else none

/-- The read that completes next is that of a message. -/
def readsMsg (s : LinkSession) : Bool :=
  match s.reading with
  | .msg _ length => decide (0 ≤ length ∧ length.toNatClampNeg ≤ s.input.length)
  | _ => false

def step (s : LinkSession) : Event → Option LinkSession
  | .arrive bytes => some { s with input := s.input ++ bytes }
  | .readOk => s.completeRead layout callFun
  | .readError => if s.reading = .stopped then none else some { s with reading := .stopped }
  | .writeOk index =>
    if index < s.writing.length then
      { s with writing := s.writing.eraseIdx index }.handleWrite layout
    else none
  | .writeError index =>
    if index < s.writing.length then some { s with writing := s.writing.eraseIdx index } else none

/-- The session as a transition system. -/
def machine : Machine LinkSession Event where
  step := step layout callFun

end LinkSession

end RpcLoop
