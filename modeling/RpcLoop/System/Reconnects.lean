import RpcLoop.System.Requests

/-! A client that loses its connections and connects again. The server makes a
session for each connection; an earlier one may still have bytes to read when
the client has gone on. A message is never sent on two connections, so whatever
goes wrong no request is executed twice. -/

namespace RpcLoop

open Foundation Asio

/-- The server's end of a connection. A handler that throws on a broken connection
is a session that takes no further step. -/
structure Peer where
  session : LinkSession
  arrived : Nat

/-- A client with what it sent on earlier connections, and the session of each
connection by the number of the attempt. -/
structure Reconnecting where
  client : WireClient
  sent : Nat → List Cell
  peers : Nat → Peer
  asked : List Asked

namespace Reconnecting

def start (csq : ClientSendQueue) : Reconnecting where
  client := .start csq
  sent _ := []
  peers _ := { session := .start, arrived := 0 }
  asked := []

/-- The current attempt to connect. -/
def attempt (s : Reconnecting) : Nat := s.client.loop.link.attempt

/-- What has been sent on a connection. -/
def wire (s : Reconnecting) (number : Nat) : List Cell :=
  if number = s.attempt then s.client.wire else s.sent number

/-- Sessions and the client run as they like: reads and writes may fail, anything
may be received, and the connection may be closed and made again. -/
inductive Event where
  | write (body : List UInt8)
  | ret (caller : Nat)
  | client (event : ClientLoop.Event)
  | sendRequest (index count : Nat)
  | arrive (number count : Nat) (freed : Nat → UInt8)
  | session (number : Nat) (event : LinkSession.Event)

/-- What a client does by itself, or receives. -/
def moves : ClientLoop.Event → Bool
  | .beginWrite _ _ => false
  | _ => true

/-- The state behind a step of the client. -/
def follow (s : Reconnecting) (client : WireClient) : Reconnecting :=
  { s with
    client := client
    sent := if client.loop.link.attempt = s.attempt then s.sent
      else Function.update s.sent s.attempt s.client.wire }

def withPeer (s : Reconnecting) (number : Nat) (peer : Peer) : Reconnecting :=
  { s with peers := Function.update s.peers number peer }

variable (layout : IntLayout) (callFun : Option CallbackFun)

/-- A caller writes a body whose frame an `int` can measure. -/
def write (s : Reconnecting) (body : List UInt8) : Option Reconnecting :=
  if fits : body.length + 20 ≤ 2 ^ 31 - 1 then do
    let client ← s.client.step layout
      (.loop (.beginWrite (body.map some) (Int32.ofNat body.length)))
    let request : Request := { reqId := s.client.loop.msgIndex, body := body, fits := fits }
    return { s.follow client with
      asked := s.asked ++ [{ addr := s.client.loop.allocated, request := request }] }
  else none

/-- Some of what was sent on a connection arrives. -/
def arrive (s : Reconnecting) (number count : Nat) (freed : Nat → UInt8) :
    Option Reconnecting := do
  let peer := s.peers number
  let bytes := shown freed (((s.wire number).drop peer.arrived).take count)
  let session ← peer.session.step layout callFun (.arrive bytes)
  return s.withPeer number { session := session, arrived := peer.arrived + bytes.length }

def step (s : Reconnecting) : Event → Option Reconnecting
  | .write body => s.write layout body
  | .ret caller => do
    let client ← s.client.step layout (.ret caller)
    return s.follow client
  | .client event => do
    if moves event then do
      let client ← s.client.step layout (.loop event)
      return s.follow client
    else none
  | .sendRequest index count => do
    let client ← s.client.step layout (.piece index count)
    return s.follow client
  | .arrive number count freed => s.arrive layout callFun number count freed
  | .session _ (.arrive _) => none
  | .session number event => do
    let session ← (s.peers number).session.step layout callFun event
    return s.withPeer number { s.peers number with session := session }

def machine : Machine Reconnecting Event where
  step := step layout callFun

/-- A request's bytes go out only while every earlier request of its connection
has been sent, and its message keeps an owner until then. -/
def KeepsFrames (s : Reconnecting) (event : Event) (next : Reconnecting) : Prop :=
  match event with
  | .client inner => WireClient.KeepsFrames s.client (.loop inner) next.client
  | .ret caller => WireClient.KeepsFrames s.client (.ret caller) next.client
  | .sendRequest index count => WireClient.KeepsFrames s.client (.piece index count) next.client
  | _ => True

variable {layout : IntLayout} {callFun : Option CallbackFun} {s next : Reconnecting}
  {event : Event}

/-- The steps of the client and of the sessions. -/
inductive Transition (layout : IntLayout) (callFun : Option CallbackFun) (s : Reconnecting) :
    Event → Reconnecting → Prop where
  | wrote (request : Request) (client : WireClient) (id : request.reqId = s.client.loop.msgIndex)
      (stepped : s.client.step layout
        (.loop (.beginWrite (request.body.map some) request.bodyLen)) = some client) :
      Transition layout callFun s (.write request.body) { s.follow client with
        asked := s.asked ++ [{ addr := s.client.loop.allocated, request := request }] }
  | moved (inner : ClientLoop.Event) (client : WireClient)
      (idle : ∀ msg msgL, inner ≠ .beginWrite msg msgL)
      (stepped : s.client.step layout (.loop inner) = some client) :
      Transition layout callFun s (.client inner) (s.follow client)
  | left (caller : Nat) (client : WireClient)
      (stepped : s.client.step layout (.ret caller) = some client) :
      Transition layout callFun s (.ret caller) (s.follow client)
  | requestSent (index count : Nat) (client : WireClient)
      (stepped : s.client.step layout (.piece index count) = some client) :
      Transition layout callFun s (.sendRequest index count) (s.follow client)
  | arrived (number count : Nat) (freed : Nat → UInt8) (bytes : List UInt8)
      (session : LinkSession)
      (found : bytes = shown freed (((s.wire number).drop (s.peers number).arrived).take count))
      (stepped : (LinkSession.machine layout callFun).step (s.peers number).session
        (.arrive bytes) = some session) :
      Transition layout callFun s (.arrive number count freed) (s.withPeer number
        { session := session, arrived := (s.peers number).arrived + bytes.length })
  | handled (number : Nat) (inner : LinkSession.Event) (session : LinkSession)
      (quiet : LinkSession.arrivals [inner] = [])
      (stepped : (LinkSession.machine layout callFun).step (s.peers number).session inner =
        some session) :
      Transition layout callFun s (.session number inner)
        (s.withPeer number { s.peers number with session := session })

private theorem transition_of_step (taken : (machine layout callFun).step s event = some next) :
    Transition layout callFun s event next := by
  change step layout callFun s event = some next at taken
  cases event with
  | write body =>
    simp only [step, write] at taken
    split at taken
    · rename_i fits
      simp only [Option.bind_eq_bind, Option.bind_eq_some_iff, Option.pure_def] at taken
      obtain ⟨client, stepped, same⟩ := taken
      cases same
      exact .wrote ⟨s.client.loop.msgIndex, body, fits⟩ client rfl stepped
    · cases taken
  | ret caller =>
    obtain ⟨client, stepped, same⟩ := Option.bind_eq_some_iff.mp taken
    cases same
    exact .left caller client stepped
  | client inner =>
    simp only [step] at taken
    split at taken
    · rename_i allowed
      obtain ⟨client, stepped, same⟩ := Option.bind_eq_some_iff.mp taken
      cases same
      exact .moved inner client (by rintro msg msgL rfl; cases allowed) stepped
    · cases taken
  | sendRequest index count =>
    obtain ⟨client, stepped, same⟩ := Option.bind_eq_some_iff.mp taken
    cases same
    exact .requestSent index count client stepped
  | arrive number count freed =>
    simp only [step, arrive, Option.bind_eq_bind, Option.bind_eq_some_iff, Option.pure_def] at taken
    obtain ⟨session, stepped, same⟩ := taken
    cases same
    exact .arrived number count freed _ session rfl stepped
  | session number inner =>
    cases inner with
    | arrive bytes => cases taken
    | _ =>
      obtain ⟨session, stepped, same⟩ := Option.bind_eq_some_iff.mp taken
      cases same
      exact .handled number _ session rfl stepped

/-- The requests handed over on a connection. -/
def on (line : List (Nat × Asked)) (number : Nat) : List Asked :=
  (line.filter fun entry => entry.1 == number).map Prod.snd

theorem on_append (first second : List (Nat × Asked)) (number : Nat) :
    on (first ++ second) number = on first number ++ on second number := by
  simp [on]

theorem on_of_ne {line : List (Nat × Asked)} {number : Nat}
    (other : ∀ entry ∈ line, entry.1 ≠ number) : on line number = [] := by
  have none : line.filter (fun entry => entry.1 == number) = [] :=
    List.filter_eq_nil_iff.mpr fun entry member => by simpa using other entry member
  rw [on, none, List.map_nil]

private theorem on_of_eq {line : List (Nat × Asked)} {number : Nat}
    (same : ∀ entry ∈ line, entry.1 = number) : on line number = line.map Prod.snd := by
  have all : line.filter (fun entry => entry.1 == number) = line :=
    List.filter_eq_self.mpr fun entry member => by simpa using same entry member
  rw [on, all]

/-- The requests in the order in which they were handed over, each with the
connection it was handed over on; those since the last attempt are of that one. -/
structure Lined (layout : IntLayout) (line : List (Nat × Asked)) (s : Reconnecting) : Prop where
  handing : Handing layout s.asked (line.map Prod.snd) s.client
  earlier : ∀ entry ∈ line.take s.client.base, entry.1 < s.attempt
  current : ∀ entry ∈ line.drop s.client.base, entry.1 = s.attempt

/-- And every session has read some of what was sent on its connection. -/
structure Tracking (layout : IntLayout) (callFun : Option CallbackFun)
    (line : List (Nat × Asked)) (s : Reconnecting) : Prop extends Lined layout line s where
  received : ∀ number, ∃ reads, Received layout callFun (on line number) (s.wire number)
    (s.peers number).arrived reads (s.peers number).session

variable {line new : List (Nat × Asked)}

theorem Tracking.initial (layout : IntLayout) (callFun : Option CallbackFun)
    (csq : ClientSendQueue) : Tracking layout callFun [] (start csq) where
  handing := .initial layout csq
  earlier _ member := by cases member
  current _ member := by cases member
  received number := by
    refine ⟨0, ?_⟩
    have nothing : (start csq).wire number = [] := by
      rw [wire]
      split <;> rfl
    rw [nothing]
    exact .initial layout callFun

/-- The requests of the current connection are those since the last attempt. -/
theorem Lined.on_attempt (lined : Lined layout line s) :
    on line s.attempt = (line.drop s.client.base).map Prod.snd := by
  conv_lhs => rw [← List.take_append_drop s.client.base line]
  rw [on_append, on_of_ne fun entry member => Nat.ne_of_lt (lined.earlier entry member),
    List.nil_append, on_of_eq lined.current]

theorem Lined.sent (lined : Lined layout line s) :
    s.client.wire <+:
      ((on line s.attempt).map fun a => a.request.frame layout).flatten.map some := by
  have whole := lined.handing.untorn.neverTorn
  have handed := List.forall₂_drop s.client.base lined.handing.handed
  rw [WireClient.NeverTorn, WireClient.started, Handing.frames handed, ← List.map_drop,
    ← lined.on_attempt] at whole
  exact whole

/-- A step of the client that changes what was sent on the current connection
only, by adding to it. -/
theorem Tracking.client (tracking : Tracking layout callFun line s)
    (lined : Lined layout (line ++ new) next) (peers : next.peers = s.peers)
    (tags : ∀ entry ∈ new, entry.1 = next.attempt)
    (grows : ∀ number, s.wire number <+: next.wire number)
    (others : ∀ number, number ≠ next.attempt → next.wire number = s.wire number) :
    Tracking layout callFun (line ++ new) next where
  toLined := lined
  received number := by
    obtain ⟨reads, received⟩ := tracking.received number
    refine ⟨reads, ?_⟩
    rw [peers, on_append]
    refine received.more (grows number) ?_
    rw [← on_append]
    by_cases own : number = next.attempt
    · have wire : next.wire number = next.client.wire := by rw [wire, if_pos own]
      rw [wire, own]
      exact lined.sent
    · rw [others number own, on_append, on_of_ne fun entry member same =>
        own (same.symm.trans (tags entry member)), List.append_nil]
      exact received.sent

/-- Requests handed over on the current connection keep the order. -/
theorem Lined.same (lined : Lined layout line s) {more : List Asked} {asked : List Asked}
    (handing : Handing layout asked (line.map Prod.snd ++ more) next.client)
    (asks : next.asked = asked) (attempt : next.attempt = s.attempt)
    (base : next.client.base = s.client.base) :
    Lined layout (line ++ more.map fun a => (s.attempt, a)) next where
  handing := by
    rw [asks, List.map_append, List.map_map]
    have plain : more.map (Prod.snd ∘ fun a => (s.attempt, a)) = more := by simp [Function.comp_def]
    rw [plain]
    exact handing
  earlier entry member := by
    have inside : s.client.base ≤ line.length := by
      have bound := lined.handing.untorn.base
      rwa [← lined.handing.handed.length_eq, List.length_map] at bound
    rw [base, List.take_append_of_le_length inside] at member
    rw [attempt]
    exact lined.earlier entry member
  current entry member := by
    have inside : s.client.base ≤ line.length := by
      have bound := lined.handing.untorn.base
      rwa [← lined.handing.handed.length_eq, List.length_map] at bound
    rw [base, List.drop_append_of_le_length inside] at member
    rw [attempt]
    rcases List.mem_append.mp member with old | new
    · exact lined.current entry old
    · obtain ⟨a, _, rfl⟩ := List.mem_map.mp new
      rfl

theorem Lined.le_attempt (lined : Lined layout line s) :
    ∀ entry ∈ line, entry.1 ≤ s.attempt := by
  intro entry member
  rw [← List.take_append_drop s.client.base line] at member
  rcases List.mem_append.mp member with old | new
  · exact Nat.le_of_lt (lined.earlier entry old)
  · exact Nat.le_of_eq (lined.current entry new)

/-- On a new connection nothing has been handed over, and all else is earlier. -/
theorem Lined.reconnected (lined : Lined layout line s) {client : WireClient}
    (handing : Handing layout s.asked (line.map Prod.snd) client)
    (later : s.attempt < client.loop.link.attempt)
    (base : client.base = client.loop.handed.length) :
    Lined layout line (s.follow client) where
  handing := handing
  earlier entry member := by
    exact Nat.lt_of_le_of_lt (lined.le_attempt entry (List.mem_of_mem_take member)) later
  current entry member := by
    have all : line.drop client.base = [] := by
      rw [base, ← handing.handed.length_eq, List.length_map]
      exact List.drop_length
    rw [follow, all] at member
    cases member

/-- Nothing has been sent on a connection that was not attempted. -/
theorem Tracking.unattempted (tracking : Tracking layout callFun line s) {number : Nat}
    (later : s.attempt < number) : s.wire number = [] := by
  obtain ⟨_, received⟩ := tracking.received number
  have sent := received.sent
  have other : ∀ entry ∈ line, entry.1 ≠ number := fun entry member =>
    Nat.ne_of_lt (Nat.lt_of_le_of_lt (tracking.le_attempt entry member) later)
  rw [on_of_ne other] at sent
  exact List.prefix_nil.mp sent

theorem wire_follow_of_ne {client : WireClient} {number : Nat} (other : number ≠ s.attempt)
    (own : number ≠ client.loop.link.attempt) : (s.follow client).wire number = s.wire number := by
  have outside : number ≠ (s.follow client).attempt := own
  rw [wire, if_neg outside, wire, if_neg other, follow]
  dsimp only
  split
  · rfl
  · exact Function.update_of_ne other _ _

theorem wire_follow_of_eq {client : WireClient} (attempt : client.loop.link.attempt = s.attempt)
    (number : Nat) :
    (s.follow client).wire number = if number = s.attempt then client.wire else s.wire number := by
  split
  · rename_i own
    have here : number = (s.follow client).attempt := own.trans attempt.symm
    rw [wire, if_pos here]
    rfl
  · rename_i other
    exact wire_follow_of_ne other fun own => other (own.trans attempt)

theorem Tracking.loop (tracking : Tracking layout callFun line s) {inner : ClientLoop.Event}
    {client : WireClient} (taken : s.client.step layout (.loop inner) = some client)
    (keeps : WireClient.KeepsFrames s.client (.loop inner) client)
    (idle : ∀ msg msgL, inner ≠ .beginWrite msg msgL) :
    ∃ new, Tracking layout callFun (line ++ new) (s.follow client) := by
  obtain ⟨more, handing, nothing⟩ := tracking.handing.loop taken keeps idle
  obtain ⟨after, stepped, _, same⟩ := WireClient.loop_cases taken
  have transition := ClientLoop.transition_of_step stepped
  by_cases attempt : client.loop.link.attempt = s.attempt
  · have still : client = { s.client with
        toOwningClient := s.client.toOwningClient.after inner after } := by
      rw [same] at attempt ⊢
      rw [WireClient.loop_follow] at attempt
      exact if_pos attempt
    have wires : ∀ number, (s.follow client).wire number = s.wire number := by
      intro number
      rw [wire_follow_of_eq attempt, still]
      split
      · rename_i own
        rw [wire, if_pos own]
      · rfl
    refine ⟨_, tracking.client (tracking.same handing rfl attempt (by rw [still]; rfl)) rfl ?_
      (fun number => by rw [wires]) (fun number _ => wires number)⟩
    intro entry member
    obtain ⟨a, _, rfl⟩ := List.mem_map.mp member
    exact attempt.symm
  · have fresh : client = { s.client with
        toOwningClient := s.client.toOwningClient.after inner after
        base := after.handed.length
        wire := [] } := by
      rw [same] at attempt ⊢
      rw [WireClient.loop_follow] at attempt
      exact if_neg attempt
    have none := nothing attempt
    subst none
    rw [List.append_nil] at handing
    have later : s.attempt < client.loop.link.attempt := by
      have grows := (ClientLoop.link_moves transition).attempt_le
      rw [fresh] at attempt ⊢
      exact Nat.lt_of_le_of_ne grows (Ne.symm attempt)
    have wires : ∀ number, (s.follow client).wire number = s.wire number := by
      intro number
      by_cases own : number = client.loop.link.attempt
      · have here : number = (s.follow client).attempt := own
        rw [wire, if_pos here, tracking.unattempted (by rw [own]; exact later), follow, fresh]
      · by_cases old : number = s.attempt
        · have gone : number ≠ (s.follow client).attempt := own
          rw [wire, if_neg gone, wire, if_pos old, follow]
          dsimp only
          rw [if_neg attempt, old, Function.update_self]
        · exact wire_follow_of_ne old own
    have lined := tracking.reconnected handing later (by rw [fresh]; rfl)
    rw [← List.append_nil line] at lined
    exact ⟨[], tracking.client lined rfl (fun entry member => by cases member)
      (fun number => by rw [wires]) (fun number _ => wires number)⟩

theorem Tracking.write (tracking : Tracking layout callFun line s) {r : Request}
    {client : WireClient} (id : r.reqId = s.client.loop.msgIndex)
    (taken : s.client.step layout (.loop (.beginWrite (r.body.map some) r.bodyLen)) = some client) :
    Tracking layout callFun line { s.follow client with
      asked := s.asked ++ [{ addr := s.client.loop.allocated, request := r }] } := by
  have handing := tracking.handing.write id taken
  obtain ⟨after, stepped, _, same⟩ := WireClient.loop_cases taken
  have link : after.link.attempt = s.client.loop.link.attempt := by
    cases ClientLoop.transition_of_step stepped with
    | begun msg msgL res built => rfl
  have still : client = { s.client with
      toOwningClient :=
        s.client.toOwningClient.after (.beginWrite (r.body.map some) r.bodyLen) after } :=
    same.trans (if_pos link)
  have attempt : client.loop.link.attempt = s.attempt := by
    rw [still]
    exact link
  have base : client.base = s.client.base := by rw [still]
  have wires := wire_follow_of_eq attempt
  rw [← List.append_nil (line.map Prod.snd)] at handing
  have lined : Lined layout (line ++ [].map fun a => (s.attempt, a)) { s.follow client with
      asked := s.asked ++ [{ addr := s.client.loop.allocated, request := r }] } :=
    tracking.toLined.same handing rfl attempt base
  have whole : ∀ number, (s.follow client).wire number = s.wire number := by
    intro number
    rw [wires, still]
    split
    · rename_i own
      rw [wire, if_pos own]
    · rfl
  have tracked := tracking.client lined rfl (fun entry member => by cases member)
    (fun number => ⟨[], (List.append_nil _).trans (whole number).symm⟩)
    (fun number _ => whole number)
  rwa [List.map_nil, List.append_nil] at tracked

theorem Tracking.ret (tracking : Tracking layout callFun line s) {caller : Nat}
    {client : WireClient} (taken : s.client.step layout (.ret caller) = some client)
    (keeps : WireClient.KeepsFrames s.client (.ret caller) client) :
    Tracking layout callFun line (s.follow client) := by
  have handing := tracking.handing.ret taken keeps
  obtain ⟨_, _, _, still⟩ := WireClient.ret_cases taken
  have attempt : client.loop.link.attempt = s.attempt := by rw [still]; rfl
  have base : client.base = s.client.base := by rw [still]
  rw [← List.append_nil (line.map Prod.snd)] at handing
  have lined : Lined layout (line ++ [].map fun a => (s.attempt, a)) (s.follow client) :=
    tracking.toLined.same handing rfl attempt base
  have whole : ∀ number, (s.follow client).wire number = s.wire number := by
    intro number
    rw [wire_follow_of_eq attempt, still]
    split
    · rename_i own
      rw [wire, if_pos own]
    · rfl
  have tracked := tracking.client lined rfl (fun entry member => by cases member)
    (fun number => ⟨[], (List.append_nil _).trans (whole number).symm⟩)
    (fun number _ => whole number)
  rwa [List.map_nil, List.append_nil] at tracked

theorem Tracking.piece (tracking : Tracking layout callFun line s) {index count : Nat}
    {client : WireClient} (taken : s.client.step layout (.piece index count) = some client)
    (oldest : s.client.oldest index = true) : Tracking layout callFun line (s.follow client) := by
  obtain ⟨handing, grows, loop, base⟩ := tracking.handing.piece taken oldest
  have attempt : client.loop.link.attempt = s.attempt := by rw [loop]; rfl
  have wires := wire_follow_of_eq attempt
  rw [← List.append_nil (line.map Prod.snd)] at handing
  have lined : Lined layout (line ++ [].map fun a => (s.attempt, a)) (s.follow client) :=
    tracking.toLined.same handing rfl attempt base
  have tracked := tracking.client lined rfl (fun entry member => by cases member) (fun number => ?_)
    (fun number other => ?_)
  · rwa [List.map_nil, List.append_nil] at tracked
  · rw [wires]
    split
    · rename_i own
      rw [wire, if_pos own]
      exact grows
    · exact List.prefix_rfl
  · have apart : number ≠ s.attempt := fun own => other (own.trans attempt.symm)
    rw [wires, if_neg apart]

theorem Tracking.peer (tracking : Tracking layout callFun line s) {number reads : Nat} {peer : Peer}
    (received : Received layout callFun (on line number) (s.wire number) peer.arrived reads
      peer.session) : Tracking layout callFun line (s.withPeer number peer) where
  handing := tracking.handing
  earlier := tracking.earlier
  current := tracking.current
  received other := by
    by_cases own : other = number
    · subst own
      have same : (s.withPeer other peer).peers other = peer := Function.update_self _ _ _
      refine ⟨reads, ?_⟩
      rw [same]
      exact received
    · obtain ⟨count, before⟩ := tracking.received other
      have same : (s.withPeer number peer).peers other = s.peers other :=
        Function.update_of_ne own _ _
      refine ⟨count, ?_⟩
      rw [same]
      exact before

theorem Tracking.step (tracking : Tracking layout callFun line s) (results : ResultsSound callFun)
    (transition : Transition layout callFun s event next) (keeps : KeepsFrames s event next) :
    ∃ new, Tracking layout callFun (line ++ new) next := by
  cases transition with
  | wrote request client id stepped =>
    refine ⟨[], ?_⟩
    rw [List.append_nil]
    exact tracking.write id stepped
  | moved inner client idle stepped => exact tracking.loop stepped keeps idle
  | left caller client stepped =>
    refine ⟨[], ?_⟩
    rw [List.append_nil]
    exact tracking.ret stepped keeps
  | requestSent index count client stepped =>
    refine ⟨[], ?_⟩
    rw [List.append_nil]
    exact tracking.piece stepped keeps
  | arrived number count freed bytes session found stepped =>
    obtain ⟨reads, received⟩ := tracking.received number
    refine ⟨[], ?_⟩
    rw [List.append_nil]
    exact tracking.peer (received.arrive results found stepped)
  | handled number inner session quiet stepped =>
    obtain ⟨reads, received⟩ := tracking.received number
    refine ⟨[], ?_⟩
    rw [List.append_nil]
    exact tracking.peer (received.handle results quiet stepped)

/-- What the sessions of all connections have executed: each some of the messages
handed over, in their order and with the bytes their callers wrote, and no two
sessions the same one. -/
def ExecutedOnce (callFun : Option CallbackFun) (s : Reconnecting) : Prop :=
  ∃ executed : Nat → List Asked, (s.client.loop.handed.map Outgoing.addr).Nodup ∧
    (∀ number, ((executed number).map Asked.addr).Sublist
      (s.client.loop.handed.map Outgoing.addr)) ∧
    (∀ number, ∀ a ∈ executed number, a ∈ s.asked) ∧
    (∀ first second, first ≠ second → ∀ a ∈ executed first, ∀ b ∈ executed second,
      a.addr ≠ b.addr) ∧
    ∀ number, (s.peers number).session.handled.map RpcStruct.content =
        (executed number).map (fun a => a.request.content) ∧
      (s.peers number).session.calls = (executed number).flatMap fun a =>
        callsFor callFun (a.request.body.map some) a.request.bodyLen

private theorem on_sublist (line : List (Nat × Asked)) (number : Nat) :
    (on line number).Sublist (line.map Prod.snd) :=
  List.filter_sublist.map Prod.snd

theorem Tracking.executedOnce (tracking : Tracking layout callFun line s) :
    ExecutedOnce callFun s := by
  have handing := tracking.handing
  have distinct := handing.distinct
  have addrs := Handing.addrs handing.handed
  choose reads received using tracking.received
  choose executed first handled calls using fun number => (received number).executed
  have sub : ∀ number, (executed number).Sublist (line.map Prod.snd) := fun number =>
    (first number).sublist.trans (on_sublist line number)
  refine ⟨executed, ?_, fun number => ?_, fun number a member => ?_, ?_, fun number =>
    ⟨handled number, calls number⟩⟩
  · rw [← addrs]
    exact distinct
  · rw [← addrs]
    exact (sub number).map _
  · exact handing.known a ((sub number).subset member)
  · intro one other different a here b there same
    obtain ⟨entry, member, rfl⟩ := List.mem_map.mp ((first one).subset here)
    obtain ⟨again, also, rfl⟩ := List.mem_map.mp ((first other).subset there)
    obtain ⟨inside, tag⟩ := List.mem_filter.mp member
    obtain ⟨within, mark⟩ := List.mem_filter.mp also
    have once : (line.map fun entry => entry.2.addr).Nodup := by
      rw [List.map_map] at distinct
      exact distinct
    have equal := List.inj_on_of_nodup_map once inside within same
    subst equal
    exact different ((beq_iff_eq.mp tag).symm.trans (beq_iff_eq.mp mark))

instance (s : Reconnecting) (event : Event) (next : Reconnecting) :
    Decidable (KeepsFrames s event next) :=
  match event with
  | .client inner =>
    inferInstanceAs (Decidable (WireClient.KeepsFrames s.client (.loop inner) next.client))
  | .ret caller =>
    inferInstanceAs (Decidable (WireClient.KeepsFrames s.client (.ret caller) next.client))
  | .sendRequest index count =>
    inferInstanceAs (Decidable (WireClient.KeepsFrames s.client (.piece index count) next.client))
  | .write _ | .arrive _ _ _ | .session _ _ => isTrue trivial

/-- The connection breaks in the middle of a request; the next request goes out
whole on a new one. -/
def brokenOnce : List Event :=
  [.write [7], .client (.push 0), .client (.connected 0), .client (.handleConnect 0 false),
    .client (.insert 0), .client (.arm 0), .client (.post 0), .client (.runPosted 0),
    .sendRequest 0 15, .arrive 1 15 fun _ => 0, .session 1 .readOk, .client (.handleWrite 0 true),
    .client .isOpen, .client (.connected 0), .client (.handleConnect 0 false), .write [8],
    .client (.push 0), .client (.insert 0), .client (.arm 0), .client (.post 0),
    .client (.runPosted 0), .sendRequest 0 21, .arrive 2 21 fun _ => 0, .session 2 .readOk,
    .session 1 .readError, .session 2 .readOk]

end Reconnecting

end RpcLoop
