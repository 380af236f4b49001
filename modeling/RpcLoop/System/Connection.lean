import RpcLoop.Client.Demultiplex
import RpcLoop.Client.Tearing
import RpcLoop.Server.ReplyOrder
import RpcLoop.Server.RoundTrip

/-! One connection from end to end: a client, the session that the server made
for it, and the bytes under way in both directions. The two programs share
nothing but these bytes. -/

namespace RpcLoop

open Foundation Asio

/-- A call of `write`: the request its caller made, and the message built for it. -/
structure Asked where
  addr : Ptr
  request : Request

/-- What the session's writes have sent is counted for each outstanding one; the
client's own bytes are those of its wire. -/
structure RpcSystem where
  client : WireClient
  session : LinkSession
  arrived : Nat
  progress : List Nat
  toClient : List UInt8
  asked : List Asked

/-- What memory without known contents holds: a reply's cells that were never
written, and what is sent on a connection attempt of messages that were freed. -/
structure Memory where
  unset : Ptr → Nat → UInt8
  freed : Nat → Nat → UInt8

/-- The bytes a write sends; a cell that was never written holds some byte. -/
def shown (memory : Nat → UInt8) (cells : List Cell) : List UInt8 :=
  cells.mapIdx fun index cell => cell.getD (memory index)

@[simp] theorem length_shown (memory : Nat → UInt8) (cells : List Cell) :
    (shown memory cells).length = cells.length := by
  simp [shown]

/-- Of initialized cells a write sends the values. -/
theorem shown_map_some (memory : Nat → UInt8) (bytes : List UInt8) :
    shown memory (bytes.map some) = bytes := by
  refine List.ext_getElem (by simp) fun index inside _ => ?_
  simp [shown]

namespace RpcSystem

def start (csq : ClientSendQueue) : RpcSystem where
  client := .start csq
  session := .start
  arrived := 0
  progress := []
  toClient := []
  asked := []

inductive Event where
  | write (body : List UInt8)
  | ret (caller : Nat)
  | client (event : ClientLoop.Event)
  | sendRequest (index count : Nat)
  | arrive (count : Nat)
  | session (event : LinkSession.Event)
  | sendReply (index count : Nat)
  | receive (index : Nat)

/-- The steps of a client that close its connection or find it broken. -/
def breaks : ClientLoop.Event → Bool
  | .close => true
  | .handleConnect _ error | .handleRead _ error | .handleWrite _ error => error
  | .disturbed _ _ => true
  | _ => false

/-- What a client does by itself while its connection lasts; what it writes and
what it reads comes from outside. -/
def lasting : ClientLoop.Event → Bool
  | .beginWrite _ _ | .received _ _ => false
  | event => !breaks event

variable (layout : IntLayout) (callFun : Option CallbackFun) (memory : Memory)

/-- A caller writes a body whose frame an `int` can measure. -/
def write (s : RpcSystem) (body : List UInt8) : Option RpcSystem :=
  if fits : body.length + 20 ≤ 2 ^ 31 - 1 then do
    let client ← s.client.step layout
      (.loop (.beginWrite (body.map some) (Int32.ofNat body.length)))
    let request : Request := { reqId := s.client.loop.msgIndex, body := body, fits := fits }
    return { s with
      client := client
      asked := s.asked ++ [{ addr := s.client.loop.allocated, request := request }] }
  else none

/-- Some of the bytes that the client has sent arrive. -/
def arrive (s : RpcSystem) (count : Nat) : Option RpcSystem := do
  let freed := fun index => memory.freed s.client.loop.link.attempt (s.arrived + index)
  let bytes := shown freed ((s.client.wire.drop s.arrived).take count)
  let session ← s.session.step layout callFun (.arrive bytes)
  return { s with session := session, arrived := s.arrived + bytes.length }

/-- Of the writes that a step of the session has started nothing has been sent. -/
def withSession (s : RpcSystem) (session : LinkSession) (progress : List Nat) : RpcSystem :=
  { s with
    session := session
    progress := progress ++ List.replicate (session.writing.length - progress.length) 0 }

/-- What an outstanding write of the session sends; the deque is the only owner of
the message. -/
def replyBytes (s : RpcSystem) (index : Nat) : Option (List UInt8) := do
  let p ← s.session.writing[index]?
  let cells ← (s.session.heap p).frame.toOption
  return shown (memory.unset p)
    (if p ∈ s.session.writeMsgs then cells else List.replicate cells.length none)

/-- A handler of the session runs; a write is over when all of it has been sent. -/
def stepSession (s : RpcSystem) : LinkSession.Event → Option RpcSystem
  | .readOk => do
    let session ← s.session.step layout callFun .readOk
    return s.withSession session s.progress
  | .writeOk index => do
    let bytes ← s.replyBytes memory index
    if s.progress[index]? = some bytes.length then do
      let session ← s.session.step layout callFun (.writeOk index)
      return s.withSession session (s.progress.eraseIdx index)
    else none
  | _ => none

/-- An outstanding write of the session sends a piece of what is left. -/
def sendReply (s : RpcSystem) (index count : Nat) : Option RpcSystem := do
  let bytes ← s.replyBytes memory index
  let done ← s.progress[index]?
  if 0 < count ∧ done + count ≤ bytes.length then
    return { s with
      progress := s.progress.set index (done + count)
      toClient := s.toClient ++ (bytes.drop done).take count }
  else none

/-- A read of the client gets the bytes it asks for. -/
def receive (s : RpcSystem) (index : Nat) : Option RpcSystem := do
  let op ← s.client.loop.link.reads[index]?
  let wanted := ClientLoop.wanted op.what
  if wanted ≤ s.toClient.length then do
    let client ← s.client.step layout (.loop (.received index (s.toClient.take wanted)))
    return { s with client := client, toClient := s.toClient.drop wanted }
  else none

def step (s : RpcSystem) : Event → Option RpcSystem
  | .write body => s.write layout body
  | .ret caller => do
    let client ← s.client.step layout (.ret caller)
    return { s with client := client }
  | .client event => do
    if lasting event then do
      let client ← s.client.step layout (.loop event)
      return { s with client := client }
    else none
  | .sendRequest index count => do
    let client ← s.client.step layout (.piece index count)
    return { s with client := client }
  | .arrive count => s.arrive layout callFun memory count
  | .session event => s.stepSession layout callFun memory event
  | .sendReply index count => s.sendReply memory index count
  | .receive index => s.receive layout index

def machine : Machine RpcSystem Event where
  step := step layout callFun memory

/-- A request's bytes go out only while every earlier request has been sent, and
its message keeps an owner until then. -/
def KeepsFrames (s : RpcSystem) (event : Event) (next : RpcSystem) : Prop :=
  match event with
  | .client inner => WireClient.KeepsFrames s.client (.loop inner) next.client
  | .ret caller => WireClient.KeepsFrames s.client (.ret caller) next.client
  | .sendRequest index count => WireClient.KeepsFrames s.client (.piece index count) next.client
  | _ => True

/-- And a request is handled only while no earlier reply is queued, and no caller
leaves `write` while its message is bound into a posted handler. -/
def LockStep (s : RpcSystem) (event : Event) (next : RpcSystem) : Prop :=
  match event with
  | .session event => LinkSession.LockStep s.session event next.session
  | .ret caller => KeepsFrames s (.ret caller) next ∧
      ∀ m ∈ s.client.returning[caller]?,
        ClientLoop.refs Posted.bound s.client.loop.posted m.addr = 0
  | _ => KeepsFrames s event next

/-- How many calls of `write` an event begins. -/
def Event.writes : Event → Nat
  | .write _ => 1
  | _ => 0

variable {layout : IntLayout} {callFun : Option CallbackFun} {memory : Memory}
  {s next : RpcSystem} {event : Event}

/-- The steps of the system, by the part that takes them. -/
inductive Transition (layout : IntLayout) (callFun : Option CallbackFun)
    (memory : Memory) (s : RpcSystem) : Event → RpcSystem → Prop where
  | wrote (request : Request) (client : WireClient) (id : request.reqId = s.client.loop.msgIndex)
      (stepped : s.client.step layout
        (.loop (.beginWrite (request.body.map some) request.bodyLen)) = some client) :
      Transition layout callFun memory s (.write request.body) { s with
        client := client
        asked := s.asked ++ [{ addr := s.client.loop.allocated, request := request }] }
  | moved (inner : ClientLoop.Event) (client : WireClient) (allowed : lasting inner = true)
      (stepped : s.client.step layout (.loop inner) = some client) :
      Transition layout callFun memory s (.client inner) { s with client := client }
  | left (caller : Nat) (client : WireClient)
      (stepped : s.client.step layout (.ret caller) = some client) :
      Transition layout callFun memory s (.ret caller) { s with client := client }
  | requestSent (index count : Nat) (client : WireClient)
      (stepped : s.client.step layout (.piece index count) = some client) :
      Transition layout callFun memory s (.sendRequest index count) { s with client := client }
  | arrived (count : Nat) (bytes : List UInt8) (session : LinkSession)
      (found : bytes = shown (fun index =>
        memory.freed s.client.loop.link.attempt (s.arrived + index))
          ((s.client.wire.drop s.arrived).take count))
      (stepped : (LinkSession.machine layout callFun).step s.session (.arrive bytes) =
        some session) :
      Transition layout callFun memory s (.arrive count) { s with
        session := session
        arrived := s.arrived + bytes.length }
  | read (session : LinkSession)
      (stepped : (LinkSession.machine layout callFun).step s.session .readOk = some session) :
      Transition layout callFun memory s (.session .readOk) (s.withSession session s.progress)
  | written (index : Nat) (bytes : List UInt8) (session : LinkSession)
      (sends : s.replyBytes memory index = some bytes)
      (all : s.progress[index]? = some bytes.length)
      (stepped : (LinkSession.machine layout callFun).step s.session (.writeOk index) =
        some session) :
      Transition layout callFun memory s (.session (.writeOk index))
        (s.withSession session (s.progress.eraseIdx index))
  | replySent (index count done : Nat) (bytes : List UInt8)
      (sends : s.replyBytes memory index = some bytes) (stands : s.progress[index]? = some done)
      (positive : 0 < count) (inside : done + count ≤ bytes.length) :
      Transition layout callFun memory s (.sendReply index count) { s with
        progress := s.progress.set index (done + count)
        toClient := s.toClient ++ (bytes.drop done).take count }
  | received (index : Nat) (op : Operation Receive) (client : WireClient)
      (start : s.client.loop.link.reads[index]? = some op)
      (enough : ClientLoop.wanted op.what ≤ s.toClient.length)
      (stepped : s.client.step layout
        (.loop (.received index (s.toClient.take (ClientLoop.wanted op.what)))) = some client) :
      Transition layout callFun memory s (.receive index) { s with
        client := client
        toClient := s.toClient.drop (ClientLoop.wanted op.what) }

private theorem session_transition {inner : LinkSession.Event}
    (taken : s.stepSession layout callFun memory inner = some next) :
    Transition layout callFun memory s (.session inner) next := by
  cases inner with
  | readOk =>
    simp only [stepSession, Option.bind_eq_bind, Option.bind_eq_some_iff, Option.pure_def] at taken
    obtain ⟨session, stepped, same⟩ := taken
    cases same
    exact .read session stepped
  | writeOk index =>
    simp only [stepSession, Option.bind_eq_bind, Option.bind_eq_some_iff, Option.pure_def] at taken
    obtain ⟨bytes, sends, taken⟩ := taken
    split at taken
    · rename_i all
      obtain ⟨session, stepped, same⟩ := Option.bind_eq_some_iff.mp taken
      cases same
      exact .written index bytes session sends all stepped
    · cases taken
  | arrive bytes => cases taken
  | readError => cases taken
  | writeError index => cases taken

theorem transition_of_step (taken : (machine layout callFun memory).step s event = some next) :
    Transition layout callFun memory s event next := by
  change step layout callFun memory s event = some next at taken
  cases event with
  | write body =>
    simp only [step, write] at taken
    split at taken
    · rename_i fits
      simp only [Option.bind_eq_bind, Option.bind_eq_some_iff, Option.pure_def] at taken
      obtain ⟨client, stepped, same⟩ := taken
      cases same
      exact .wrote ⟨s.client.loop.msgIndex, body, fits⟩ client rfl stepped
    · cases taken
  | ret caller =>
    obtain ⟨client, stepped, same⟩ := Option.bind_eq_some_iff.mp taken
    cases same
    exact .left caller client stepped
  | client inner =>
    simp only [step] at taken
    split at taken
    · rename_i allowed
      obtain ⟨client, stepped, same⟩ := Option.bind_eq_some_iff.mp taken
      cases same
      exact .moved inner client allowed stepped
    · cases taken
  | sendRequest index count =>
    obtain ⟨client, stepped, same⟩ := Option.bind_eq_some_iff.mp taken
    cases same
    exact .requestSent index count client stepped
  | arrive count =>
    simp only [step, arrive, Option.bind_eq_bind, Option.bind_eq_some_iff, Option.pure_def] at taken
    obtain ⟨session, stepped, same⟩ := taken
    cases same
    exact .arrived count _ session rfl stepped
  | session inner => exact session_transition taken
  | sendReply index count =>
    simp only [step, sendReply, Option.bind_eq_bind, Option.bind_eq_some_iff,
      Option.pure_def] at taken
    obtain ⟨bytes, sends, done, stands, taken⟩ := taken
    split at taken
    · rename_i inside
      cases taken
      exact .replySent index count done bytes sends stands inside.1 inside.2
    · cases taken
  | receive index =>
    simp only [step, receive, Option.bind_eq_bind, Option.bind_eq_some_iff,
      Option.pure_def] at taken
    obtain ⟨op, start, taken⟩ := taken
    split at taken
    · rename_i enough
      obtain ⟨client, stepped, same⟩ := Option.bind_eq_some_iff.mp taken
      cases same
      exact .received index op client start enough stepped
    · cases taken

/-- Steps that a lasting connection leaves to the client break nothing. -/
theorem breaks_of_lasting {inner : ClientLoop.Event} (allowed : lasting inner = true) :
    breaks inner = false := by
  cases inner with
  | beginWrite | received => cases allowed
  | _ => simpa [lasting] using allowed

end RpcSystem

end RpcLoop
