import Mathlib.Logic.Function.Basic
import Std.Data.TreeMap.Lemmas
import RpcLoop.Client.Link
import RpcLoop.Client.Request
import RpcLoop.Foundation.Machine
import RpcLoop.Shared.SafeQueue

/-! `client_loop`: callers of `write` and `read`, the handlers its io thread
runs, and the timers. Callers take one shared action at a time; a handler is
one step. `init_socket`, `do_connect` and the members come first, in the order
of the class. -/

namespace RpcLoop

open Foundation Asio Shared

inductive ClientSendQueue where
  | off
  | on
  deriving DecidableEq, Repr

/-- A call of `write`, by the shared action it takes next. -/
inductive WriteCall where
  | built (m : Outgoing)
  | queued (m : Outgoing)
  | inserted (m : Outgoing) (p : Ptr)
  | armed (m : Outgoing)

/-- A call of `read` that found its entry, by the shared action it takes next. -/
inductive ReadCall where
  | waiting (p : Ptr)
  | marked (p : Ptr)
  deriving DecidableEq

/-- A handler posted to the io thread. -/
inductive Posted where
  | doWrite
  | doWriteMsg (m : Outgoing)
  | doClose

/-- One insertion into `recv_msg_map_`: the request it was made for and its entry. -/
structure Registration where
  addr : Ptr
  reqId : Int32
  entry : Ptr
  deriving DecidableEq

structure ClientLoop where
  csq : ClientSendQueue
  link : Link
  msgIndex : Int32
  recvMsgMap : Std.TreeMap Int32 Ptr
  writeMsgQueue : SafeQueue Outgoing
  eTimer : DeadlineTimer
  delReqidList : SafeQueue Int32
  entries : Ptr → RpcStruct
  allocated : Ptr
  posted : List Posted
  writers : List WriteCall
  readers : List ReadCall
  pushed : List Outgoing
  handed : List Outgoing
  registered : List Registration
  collected : List Ptr
  answered : List Ptr

namespace ClientLoop

/-- The constructor: `init_socket` and `do_connect`. -/
def start (csq : ClientSendQueue) : ClientLoop where
  csq := csq
  link := Link.init.doConnect
  msgIndex := 1
  recvMsgMap := ∅
  writeMsgQueue := {}
  eTimer := {}
  delReqidList := {}
  entries _ := .new
  allocated := 0
  posted := []
  writers := []
  readers := []
  pushed := []
  handed := []
  registered := []
  collected := []
  answered := []

variable (layout : IntLayout)

/-- Change an object through a pointer to it. -/
def store (s : ClientLoop) (p : Ptr) (m : RpcStruct) : ClientLoop :=
  { s with entries := Function.update s.entries p m }

/-! ### `write` and `newMsgBuf` -/

/-- `newMsgBuf` up to the push: the id is taken and the message built. -/
def beginWrite (s : ClientLoop) (msg : List Cell) (msgL : Int32) : Option ClientLoop := do
  let res ← (requestMsg layout s.msgIndex msg msgL).toOption
  return { s with
    msgIndex := s.msgIndex + 1
    allocated := s.allocated + 1
    writers := s.writers ++ [.built { addr := s.allocated, obj := res }] }

/-- The push on `write_msg_queue_`, where there is a queue. -/
def pushMsg (s : ClientLoop) (caller : Nat) : Option ClientLoop :=
  match s.writers[caller]? with
  | some (.built m) =>
    if s.csq = .on then
      some { s with
        writeMsgQueue := s.writeMsgQueue.push m
        writers := s.writers.set caller (.queued m)
        pushed := s.pushed ++ [m] }
    else some { s with writers := s.writers.set caller (.queued m) }
  | _ => none

/-- The object that will take the reply: only the id of its header is set. -/
def recvEntry (reqId : Int32) : RpcStruct :=
  { RpcStruct.new with headInfo := RpcStruct.new.headInfo.setReqId reqId }

/-- `recv_msg_map_[head.req_id()]=recv`. -/
def insertEntry (s : ClientLoop) (caller : Nat) : Option ClientLoop :=
  match s.writers[caller]? with
  | some (.queued m) =>
    let reqId := m.obj.headInfo.reqId
    some { s with
      recvMsgMap := s.recvMsgMap.insert reqId s.allocated
      entries := Function.update s.entries s.allocated (recvEntry reqId)
      allocated := s.allocated + 1
      writers := s.writers.set caller (.inserted m s.allocated)
      registered := { addr := m.addr, reqId := reqId, entry := s.allocated } :: s.registered }
  | _ => none

/-- `recv->do_init_timer(timeout)`. -/
def armTimer (s : ClientLoop) (caller : Nat) : Option ClientLoop :=
  match s.writers[caller]? with
  | some (.inserted m p) =>
    some { s.store p (s.entries p).doInitTimer with
      writers := s.writers.set caller (.armed m) }
  | _ => none

/-- The post at the end of `write`, which then returns. -/
def postWrite (s : ClientLoop) (caller : Nat) : Option ClientLoop :=
  match s.writers[caller]? with
  | some (.armed m) =>
    some { s with
      posted := s.posted ++ [if s.csq = .on then .doWrite else .doWriteMsg m]
      writers := s.writers.eraseIdx caller }
  | _ => none

/-! ### `read` -/

/-- `find` and lookup; `read` returns at once where there is no entry. -/
def findEntry (s : ClientLoop) (reqId : Int32) : ClientLoop :=
  match s.recvMsgMap[reqId]? with
  | none => s
  | some p => { s with readers := s.readers ++ [.waiting p] }

/-- The status loop of `read` ends: the entry is marked for deletion. -/
def markEntry (s : ClientLoop) (caller : Nat) : Option ClientLoop :=
  match s.readers[caller]? with
  | some (.waiting p) =>
    let res := s.entries p
    if res.status = .error ∨ res.status = .readOk ∨ res.status = .timeout then
      some { s.store p { res with eraseFlag := .eraseState } with
        readers := s.readers.set caller (.marked p)
        collected := p :: s.collected }
    else none
  | _ => none

/-- The push on `del_reqid_list`, after which `read` returns. -/
def listEntry (s : ClientLoop) (caller : Nat) : Option ClientLoop :=
  match s.readers[caller]? with
  | some (.marked p) =>
    some { s with
      delReqidList := s.delReqidList.push (s.entries p).headInfo.reqId
      readers := s.readers.eraseIdx caller }
  | _ => none

/-! ### Handlers -/

/-- One round of the loop in `erase_msg_timer`. -/
def eraseOne (s : ClientLoop) : ClientLoop :=
  match s.delReqidList.pop with
  | none => s
  | some (reqid, list) =>
    match s.recvMsgMap[reqid]? with
    | none => { s with delReqidList := list }
    | some p =>
      if (s.entries p).eraseFlag = .eraseExec then
        { s with delReqidList := list, recvMsgMap := s.recvMsgMap.erase reqid }
      else if (s.entries p).eraseFlag = .eraseState then
        { s.store p { s.entries p with eraseFlag := .eraseExec } with
          delReqidList := list.push reqid }
      else { s with delReqidList := list.push reqid }

/-- The loop in `erase_msg_timer`. The list never grows in a round, so its first
length bounds the number of rounds. -/
def eraseLoop : Nat → Nat → ClientLoop → ClientLoop
  | 0, _, s => s
  | rounds + 1, i, s => if i < s.delReqidList.size then eraseLoop rounds (i + 1) s.eraseOne else s

/-- `erase_msg_timer()`. -/
def eraseMsgTimer (s : ClientLoop) : ClientLoop :=
  let s := eraseLoop s.delReqidList.size 0 s
  { s with eTimer := s.eTimer.expiresFromNow.asyncWait }

/-- `do_read_head()`. -/
def doReadHead (s : ClientLoop) : Option ClientLoop := do
  let link ← s.link.asyncRead (.head {})
  return { s with link := link }

/-- `do_read_msg(read_msg_)`. -/
def doReadMsg (s : ClientLoop) (p : Ptr) : Option ClientLoop := do
  let readMsg ← ((s.entries p).recvMsgBuff layout).toOption
  let link ← s.link.asyncRead (.msg p readMsg.recvMsgLen)
  return { s.store p readMsg with link := link }

/-- `do_close()`. -/
def doClose (s : ClientLoop) : Option ClientLoop := do
  let link ← s.link.doClose
  return { s with link := link }

/-- The write that both `do_write` functions start. -/
def sendMsg (s : ClientLoop) (m : Outgoing) : Option ClientLoop := do
  let link ← s.link.asyncWrite m
  return { s with link := link, handed := s.handed ++ [m] }

/-- `do_write()`. -/
def doWrite (s : ClientLoop) : Option ClientLoop :=
  if s.link.clietnStatus ≠ .connOk then some s
  else
    match s.writeMsgQueue.pop with
    | none => some s
    | some (m, queue) => { s with writeMsgQueue := queue }.sendMsg m

/-- `do_write(res)`. -/
def doWriteMsg (s : ClientLoop) (m : Outgoing) : Option ClientLoop :=
  if s.link.clietnStatus ≠ .connOk then some s else s.sendMsg m

def handleConnect (s : ClientLoop) (error : Bool) : Option ClientLoop :=
  if error then
    let link := { s.link with clietnStatus := .error }
    some { s with link := link.resetSocket }
  else do
    let s ← { s with link := { s.link with clietnStatus := .connOk } }.doReadHead
    return s.eraseMsgTimer

/-- `handle_read_header(head, error)` behind its `is_open` test. -/
def handleReadHeader (s : ClientLoop) (head : RpcStructHead) (error : Bool) : Option ClientLoop :=
  if error then s.doClose
  else
    match s.recvMsgMap[head.reqId]? with
    | some p => do
      let known ← ((s.entries p).setHead layout head).toOption
      (s.store p known).doReadMsg layout p
    | none =>
      { s.store s.allocated (.ofHead head) with allocated := s.allocated + 1 }.doReadMsg
        layout s.allocated

/-- `handle_read_msg(read_msg_, error)` behind its `is_open` test. -/
def handleReadMsg (s : ClientLoop) (p : Ptr) (error : Bool) : Option ClientLoop :=
  if error then (s.store p ((s.entries p).setStatus .error)).doClose
  else do
    let readMsg ← ((s.entries p).body layout).toOption
    { s.store p (readMsg.setStatus .readOk) with answered := p :: s.answered }.doReadHead

/-- `handle_write(error)` behind its `is_open` test. -/
def handleWrite (s : ClientLoop) (error : Bool) : Option ClientLoop :=
  if error then s.doClose else if s.csq = .on then s.doWrite else some s

/-- `if(!is_open())return;` before the rest of a handler. -/
def ifOpen (s : ClientLoop) (rest : ClientLoop → Option ClientLoop) : Option ClientLoop := do
  let (answer, link) ← s.link.isOpen
  if answer = false then return { s with link := link } else rest { s with link := link }

/-! ### Events -/

/-- The actions of callers, completions of the network, handlers and timers. -/
inductive Event where
  | beginWrite (msg : List Cell) (msgL : Int32)
  | push (caller : Nat)
  | insert (caller : Nat)
  | arm (caller : Nat)
  | post (caller : Nat)
  | find (reqId : Int32)
  | mark (caller : Nat)
  | list (caller : Nat)
  | close
  | isOpen
  | connected (index : Nat)
  | received (index : Nat) (bytes : List UInt8)
  | sent (index : Nat)
  | handleConnect (index : Nat) (error : Bool)
  | handleRead (index : Nat) (error : Bool)
  | handleWrite (index : Nat) (error : Bool)
  | runPosted (index : Nat)
  | expire (p : Ptr)
  | timeout (p : Ptr)
  | timeoutCancelled (p : Ptr)
  | eraseExpire
  | eraseTimer (error : Bool)
  | disturbed (lost shuts : Bool)

/-- The connection of an outstanding connect is established. -/
def completeConnect (s : ClientLoop) (index : Nat) : Option ClientLoop := do
  let op ← s.link.connects[index]?
  if op.state = .live ∧ s.link.lost = false then
    return { s with link := { s.link with
      socket := s.link.establish
      connects := s.link.connects.set index { op with state := .done } } }
  else none

/-- An outstanding read has all its bytes. -/
def completeRead (s : ClientLoop) (index : Nat) (bytes : List UInt8) : Option ClientLoop := do
  let op ← s.link.reads[index]?
  if op.state = .live ∧ s.link.connected then
    match op.what with
    | .head _ =>
      if bytes.length = 12 then
        return { s with link := { s.link with
          reads := s.link.reads.set index
            { op with what := .head (.ofData layout bytes), state := .done } } }
      else none
    | .msg p length =>
      if 0 ≤ length ∧ bytes.length = length.toNatClampNeg then do
        let filled ← ((s.entries p).receive bytes length).toOption
        return { s.store p filled with link := { s.link with
          reads := s.link.reads.set index { op with state := .done } } }
      else none
  else none

/-- An outstanding write has sent all its bytes. -/
def completeWrite (s : ClientLoop) (index : Nat) : Option ClientLoop := do
  let op ← s.link.writes[index]?
  if op.state = .live ∧ s.link.connected then
    return { s with link := { s.link with
      writes := s.link.writes.set index { op with state := .done } } }
  else none

/-- A completion handler is invoked: its operation is over. -/
def invokeConnect (s : ClientLoop) (index : Nat) (error : Bool) : Option ClientLoop := do
  let op ← s.link.connects[index]?
  let ended := { s with link := { s.link with connects := s.link.connects.eraseIdx index } }
  if op.Delivers error then ended.handleConnect error else none

def invokeRead (s : ClientLoop) (index : Nat) (error : Bool) : Option ClientLoop := do
  let op ← s.link.reads[index]?
  let ended := { s with link := { s.link with reads := s.link.reads.eraseIdx index } }
  if op.Delivers error then
    ended.ifOpen fun s =>
      match op.what with
      | .head t => s.handleReadHeader layout t error
      | .msg p _ => s.handleReadMsg layout p error
  else none

def invokeWrite (s : ClientLoop) (index : Nat) (error : Bool) : Option ClientLoop := do
  let op ← s.link.writes[index]?
  let ended := { s with link := { s.link with writes := s.link.writes.eraseIdx index } }
  if op.Delivers error then ended.ifOpen fun s => s.handleWrite error else none

def runPosted (s : ClientLoop) (index : Nat) : Option ClientLoop := do
  let handler ← s.posted[index]?
  let s := { s with posted := s.posted.eraseIdx index }
  match handler with
  | .doWrite => s.doWrite
  | .doWriteMsg m => s.doWriteMsg m
  | .doClose => s.doClose

/-- A timer of an entry, moved on by a stage of its waits. -/
def withTimer (s : ClientLoop) (p : Ptr) (move : DeadlineTimer → Option DeadlineTimer) :
    Option ClientLoop := do
  let timer ← move (s.entries p).timer
  return s.store p { s.entries p with timer := timer }

def step (s : ClientLoop) : Event → Option ClientLoop
  | .beginWrite msg msgL => s.beginWrite layout msg msgL
  | .push caller => s.pushMsg caller
  | .insert caller => s.insertEntry caller
  | .arm caller => s.armTimer caller
  | .post caller => s.postWrite caller
  | .find reqId => some (s.findEntry reqId)
  | .mark caller => s.markEntry caller
  | .list caller => s.listEntry caller
  | .close => some { s with posted := s.posted ++ [.doClose] }
  | .isOpen => do
    let (_, link) ← s.link.isOpen
    return { s with link := link }
  | .connected index => s.completeConnect index
  | .received index bytes => s.completeRead layout index bytes
  | .sent index => s.completeWrite index
  | .handleConnect index error => s.invokeConnect index error
  | .handleRead index error => s.invokeRead layout index error
  | .handleWrite index error => s.invokeWrite index error
  | .runPosted index => s.runPosted index
  | .expire p => s.withTimer p DeadlineTimer.expire
  | .timeout p => do
    let s ← s.withTimer p DeadlineTimer.takeExpired
    return s.store p ((s.entries p).setTimeout false)
  | .timeoutCancelled p => do
    let s ← s.withTimer p DeadlineTimer.takeCancelled
    return s.store p ((s.entries p).setTimeout true)
  | .eraseExpire => do
    let timer ← s.eTimer.expire
    return { s with eTimer := timer }
  | .eraseTimer error => do
    let timer ← if error then s.eTimer.takeCancelled else s.eTimer.takeExpired
    return { s with eTimer := timer }.eraseMsgTimer
  | .disturbed lost shuts => do
    let link ← s.link.disturb lost shuts
    return { s with link := link }

/-- The client as a transition system. -/
def machine : Machine ClientLoop Event where
  step := step layout

end ClientLoop

end RpcLoop
