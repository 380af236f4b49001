import RpcLoop.System.Progress

/-! A server and its clients. `link_server` accepts one connection after the other;
each gets a session of its own, with a copy of the callback that was registered
when the server began to wait for it. A peer may reset its connection; the server
ends when the session handles a message of that connection. -/

namespace RpcLoop

open Foundation

/-- A client, and the callback of the session that serves it once it is accepted. -/
structure ClientLine where
  rpc : RpcSystem
  session : Option (Option CallbackFun)

/-- The session of the client has another state. -/
def ClientLine.withSession (client : ClientLine) (session : LinkSession) : ClientLine :=
  { client with rpc := { client.rpc with session := session } }

/-- `link_server`: its callback, the callbacks of the sessions that wait in
`async_accept`, the clients that have connected to its endpoint, and whether an
exception has ended the run of the `io_service`. -/
structure LinkServer where
  callFun : Option CallbackFun
  accepting : List (Option CallbackFun)
  clients : List ClientLine
  ended : Bool

namespace LinkServer

/-- A server whose `start_accept` has not been called. -/
def start : LinkServer where
  callFun := none
  accepting := []
  clients := []
  ended := false

/-- `start_accept()`: the new session gets the callback. -/
def startAccept (s : LinkServer) : LinkServer :=
  { s with accepting := s.accepting ++ [s.callFun] }

/-- `handle_accept(session, error)`: the session of a client that was accepted is
started, and the next accept begins. -/
def handleAccept (s : LinkServer) (accepted : Option Nat) : Option LinkServer :=
  match s.accepting with
  | [] => none
  | callFun :: rest =>
    match accepted with
    | none => some { s with accepting := rest }.startAccept
    | some index => do
      let client ← s.clients[index]?
      if client.session.isNone then
        return { s with
          accepting := rest
          clients := s.clients.set index { client with session := some callFun } }.startAccept
      else none

/-- Callers of the server, new clients, completed accepts, what happens on one of
the connections, a client that resets its connection, and the handlers that its
session runs afterwards. -/
inductive Event where
  | registerCallback (f : Option CallbackFun)
  | startAccept
  | connect (csq : ClientSendQueue)
  | handleAccept (accepted : Option Nat)
  | line (index : Nat) (event : RpcSystem.Event)
  | reset (index : Nat)
  | afterReset (index : Nat) (event : LinkSession.Event)

/-- The events that a session takes part in. -/
def ofSession : RpcSystem.Event → Bool
  | .arrive _ | .session _ | .sendReply _ _ => true
  | _ => false

variable (layout : IntLayout) (memory : Nat → Memory)

/-- Before its connection is accepted a client has no session to reach. -/
def stepLine (memory : Memory) (client : ClientLine) (event : RpcSystem.Event) :
    Option ClientLine :=
  match client.session with
  | some callFun => do
    let rpc ← client.rpc.step layout callFun memory event
    return { client with rpc := rpc }
  | none =>
    if ofSession event then none
    else do
      let rpc ← client.rpc.step layout none memory event
      return { client with rpc := rpc }

/-- A handler of a session whose peer has reset the connection. That of a message
throws, and nothing catches the exception before it leaves `io_service::run()`. -/
def runAfterReset (s : LinkServer) (index : Nat) (event : LinkSession.Event) :
    Option LinkServer := do
  let client ← s.clients[index]?
  let callFun ← client.session
  if client.rpc.session.lost then
    match event with
    | .arrive _ => none
    | event =>
      if event = .readOk ∧ client.rpc.session.readsMsg then return { s with ended := true }
      else do
        let session ← (LinkSession.machine layout callFun).step client.rpc.session event
        return { s with clients := s.clients.set index (client.withSession session) }
  else none

def step (s : LinkServer) : Event → Option LinkServer
  | .registerCallback f => some { s with callFun := f }
  | .startAccept => some s.startAccept
  | .connect csq => some { s with clients := s.clients ++ [{ rpc := .start csq, session := none }] }
  | .handleAccept accepted => if s.ended then none else s.handleAccept accepted
  | .line index event =>
    if s.ended ∧ ofSession event then none
    else do
      let client ← s.clients[index]?
      if client.rpc.session.lost then none
      else do
        let client ← stepLine layout (memory index) client event
        return { s with clients := s.clients.set index client }
  | .reset index => do
    let client ← s.clients[index]?
    return { s with
      clients := s.clients.set index (client.withSession { client.rpc.session with lost := true }) }
  | .afterReset index event => if s.ended then none else s.runAfterReset layout index event

def machine : Machine LinkServer Event where
  step := step layout memory

/-- What `RpcSystem.LockStep` asks, on every connection. -/
def LockStep (s : LinkServer) (event : Event) (next : LinkServer) : Prop :=
  match event with
  | .line index event => ∀ client ∈ s.clients[index]?, ∀ after ∈ next.clients[index]?,
      RpcSystem.LockStep client.rpc event after.rpc
  | _ => True

/-- A session begins to wait. -/
def Event.accepts : Event → Bool
  | .startAccept | .handleAccept _ => true
  | _ => false

/-- How often `start_accept` is called from outside. -/
def Event.starts : Event → Nat
  | .startAccept => 1
  | _ => 0

variable {layout : IntLayout} {memory : Nat → Memory} {s next : LinkServer}
  {event : Event}

private theorem step_without_session {rpc : RpcSystem} {event : RpcSystem.Event}
    (apart : ofSession event = false) (callFun other : Option CallbackFun)
    (memory : Memory) :
    rpc.step layout callFun memory event = rpc.step layout other memory event := by
  cases event with
  | arrive | session | sendReply => cases apart
  | _ => rfl

private theorem session_of_stepLine {memory : Memory} {client after : ClientLine}
    {event : RpcSystem.Event} (taken : stepLine layout memory client event = some after) :
    after.session = client.session := by
  unfold stepLine at taken
  split at taken
  · obtain ⟨rpc, _, same⟩ := Option.bind_eq_some_iff.mp taken
    cases same
    rfl
  · split at taken
    · cases taken
    · obtain ⟨rpc, _, same⟩ := Option.bind_eq_some_iff.mp taken
      cases same
      rfl

/-- What is left of a connection: all of it, or, when the client has reset it, what
the client did and what was executed. -/
structure Remains (before after : RpcSystem) : Prop where
  client : after.client = before.client
  asked : after.asked = before.asked
  handled : after.session.handled = before.session.handled
  calls : after.session.calls = before.session.calls
  released : after.session.released = before.session.released
  whole : after.session.lost = false → after = before

/-- A connection has a run of its own behind it. Without a session the callback
does not matter to it. -/
structure Alone (layout : IntLayout) (memory : Memory) (client : ClientLine) :
    Prop where
  runs : ∀ callFun, client.session = none ∨ client.session = some callFun →
    ∃ before : RpcSystem, before.Reached layout callFun memory ∧ Remains before client.rpc
  unserved : client.session = none → client.rpc.toClient = [] ∧
    client.rpc.session = { LinkSession.start with lost := client.rpc.session.lost }

theorem Remains.refl (rpc : RpcSystem) : Remains rpc rpc := ⟨rfl, rfl, rfl, rfl, rfl, fun _ => rfl⟩

/-- A session of a reset connection keeps what was executed. -/
theorem Remains.withSession {before : RpcSystem} {client : ClientLine} {session : LinkSession}
    (remains : Remains before client.rpc) (lost : session.lost = true)
    (handled : session.handled = client.rpc.session.handled)
    (calls : session.calls = client.rpc.session.calls)
    (released : session.released = client.rpc.session.released) :
    Remains before (client.withSession session).rpc where
  client := remains.client
  asked := remains.asked
  handled := handled.trans remains.handled
  calls := calls.trans remains.calls
  released := released.trans remains.released
  whole whole := by cases lost.symm.trans whole

/-- What was executed stays executed. -/
theorem Remains.executed {before after : RpcSystem} {callFun : Option CallbackFun}
    (remains : Remains before after) (executed : before.Executed callFun) :
    after.Executed callFun := by
  unfold RpcSystem.Executed
  rw [remains.client, remains.asked, remains.handled, remains.calls, remains.released]
  exact executed

/-- And what was answered stays answered. -/
theorem Remains.answered {before after : RpcSystem} {callFun : Option CallbackFun}
    (remains : Remains before after) (answered : before.Answered callFun) :
    after.Answered callFun := by
  unfold RpcSystem.Answered
  rw [remains.client, remains.asked]
  exact answered

theorem Alone.step {memory : Memory} {client after : ClientLine}
    {event : RpcSystem.Event} (alone : Alone layout memory client)
    (unlost : client.rpc.session.lost = false)
    (taken : stepLine layout memory client event = some after)
    (guarded : RpcSystem.LockStep client.rpc event after.rpc) : Alone layout memory after := by
  unfold stepLine at taken
  split at taken
  · rename_i callFun session
    obtain ⟨rpc, stepped, same⟩ := Option.bind_eq_some_iff.mp taken
    cases same
    refine ⟨fun other which => ?_, fun none => ?_⟩
    · cases session.symm.trans (which.resolve_left (by simp [session]))
      obtain ⟨before, reached, remains⟩ := alone.runs callFun (.inr session)
      cases remains.whole unlost
      exact ⟨rpc, reached.step stepped guarded, .refl rpc⟩
    · cases session.symm.trans none
  · rename_i session
    split at taken
    · cases taken
    · rename_i apart
      obtain ⟨rpc, stepped, same⟩ := Option.bind_eq_some_iff.mp taken
      cases same
      have apart : ofSession event = false := by simpa using apart
      refine ⟨fun callFun _ => ?_, fun _ => ?_⟩
      · obtain ⟨before, reached, remains⟩ := alone.runs callFun (.inl session)
        cases remains.whole unlost
        refine ⟨rpc, reached.step ?_ guarded, .refl rpc⟩
        change client.rpc.step layout callFun memory event = some rpc
        rw [step_without_session apart callFun none memory]
        exact stepped
      · obtain ⟨nothing, fresh⟩ := alone.unserved session
        cases RpcSystem.transition_of_step stepped with
        | arrived | read | written | replySent => cases apart
        | received => exact ⟨by simp [nothing], fresh⟩
        | _ => exact ⟨nothing, fresh⟩

/-- A client that resets its connection leaves what was executed. -/
theorem Alone.reset {memory : Memory} {client : ClientLine} (alone : Alone layout memory client) :
    Alone layout memory (client.withSession { client.rpc.session with lost := true }) where
  runs callFun which := by
    obtain ⟨before, reached, remains⟩ := alone.runs callFun which
    exact ⟨before, reached, remains.withSession rfl rfl rfl rfl⟩
  unserved session := by
    obtain ⟨nothing, fresh⟩ := alone.unserved session
    refine ⟨nothing, ?_⟩
    simp only [ClientLine.withSession]
    rw [fresh]

theorem Alone.afterReset {memory : Memory} {client : ClientLine} {callFun : Option CallbackFun}
    {event : LinkSession.Event} {session : LinkSession} (alone : Alone layout memory client)
    (served : client.session = some callFun) (lost : client.rpc.session.lost = true)
    (stepped : (LinkSession.machine layout callFun).step client.rpc.session event = some session) :
    Alone layout memory (client.withSession session) where
  runs other which := by
    obtain ⟨before, reached, remains⟩ := alone.runs other which
    obtain ⟨still, handled, calls, released⟩ := LinkSession.calls_of_lost lost stepped
    exact ⟨before, reached, remains.withSession still handled calls released⟩
  unserved none := by cases served.symm.trans none

private theorem client_of_set {clients : List ClientLine} {index other : Nat}
    {old new client : ClientLine}
    (found : clients[index]? = some old) (there : (clients.set index new)[other]? = some client) :
    other = index ∧ client = new ∨ clients[other]? = some client := by
  by_cases same : other = index
  · subst same
    have inside := (List.getElem?_eq_some_iff.mp found).1
    rw [List.getElem?_set_self inside] at there
    exact .inl ⟨rfl, (Option.some.inj there).symm⟩
  · rw [List.getElem?_set_ne (Ne.symm same)] at there
    exact .inr there

/-- An accept that ends: the session that waited first is served or dropped, and a
new one waits. -/
theorem accepted_of_handleAccept {accepted : Option Nat}
    (taken : s.handleAccept accepted = some next) :
    ∃ callFun rest, s.accepting = callFun :: rest ∧ next.callFun = s.callFun ∧
      next.accepting = rest ++ [s.callFun] ∧
      (next.clients = s.clients ∨ ∃ index client, s.clients[index]? = some client ∧
        client.session = none ∧
        next.clients = s.clients.set index { client with session := some callFun }) := by
  unfold LinkServer.handleAccept at taken
  split at taken
  · cases taken
  · rename_i callFun rest waiting
    refine ⟨callFun, rest, waiting, ?_⟩
    split at taken
    · cases taken
      exact ⟨rfl, rfl, .inl rfl⟩
    · rename_i index
      obtain ⟨client, found, taken⟩ := Option.bind_eq_some_iff.mp taken
      split at taken
      · rename_i unserved
        cases taken
        exact ⟨rfl, rfl, .inr ⟨index, client, found, by simpa using unserved, rfl⟩⟩
      · cases taken

theorem client_of_line {index : Nat} {inner : RpcSystem.Event}
    (taken : s.step layout memory (.line index inner) = some next) :
    ∃ client after, s.clients[index]? = some client ∧ client.rpc.session.lost = false ∧
      stepLine layout (memory index) client inner = some after ∧
      next = { s with clients := s.clients.set index after } := by
  simp only [LinkServer.step] at taken
  split at taken
  · cases taken
  · obtain ⟨client, found, taken⟩ := Option.bind_eq_some_iff.mp taken
    split at taken
    · cases taken
    · rename_i unlost
      obtain ⟨after, stepped, same⟩ := Option.bind_eq_some_iff.mp taken
      exact ⟨client, after, found, by simpa using unlost, stepped, (Option.some.inj same).symm⟩

theorem client_of_reset {index : Nat}
    (taken : s.step layout memory (.reset index) = some next) :
    ∃ client, s.clients[index]? = some client ∧ next = { s with
      clients :=
        s.clients.set index (client.withSession { client.rpc.session with lost := true }) } := by
  obtain ⟨client, found, same⟩ := Option.bind_eq_some_iff.mp taken
  exact ⟨client, found, (Option.some.inj same).symm⟩

/-- A handler on a reset connection ends the server or leaves what was executed. -/
theorem client_of_afterReset {index : Nat} {inner : LinkSession.Event}
    (taken : s.step layout memory (.afterReset index inner) = some next) :
    ∃ client callFun, s.clients[index]? = some client ∧ client.session = some callFun ∧
      client.rpc.session.lost = true ∧ s.ended = false ∧
      (next = { s with ended := true } ∨ ∃ session,
        (LinkSession.machine layout callFun).step client.rpc.session inner = some session ∧
        next = { s with clients := s.clients.set index (client.withSession session) }) := by
  simp only [LinkServer.step] at taken
  split at taken
  · cases taken
  · rename_i goes
    obtain ⟨client, found, taken⟩ := Option.bind_eq_some_iff.mp taken
    obtain ⟨callFun, served, taken⟩ := Option.bind_eq_some_iff.mp taken
    split at taken
    · rename_i lost
      refine ⟨client, callFun, found, served, lost, by simpa using goes, ?_⟩
      split at taken
      · cases taken
      · split at taken
        · exact .inl (Option.some.inj taken).symm
        · obtain ⟨session, stepped, same⟩ := Option.bind_eq_some_iff.mp taken
          exact .inr ⟨session, stepped, (Option.some.inj same).symm⟩
    · cases taken

theorem handleAccept_of_step {accepted : Option Nat}
    (taken : s.step layout memory (.handleAccept accepted) = some next) :
    s.handleAccept accepted = some next := by
  simp only [LinkServer.step] at taken
  split at taken
  · cases taken
  · exact taken

/-- The connections of a server keep apart. -/
def Apart (layout : IntLayout) (memory : Nat → Memory) (s : LinkServer) : Prop :=
  ∀ index client, s.clients[index]? = some client → Alone layout (memory index) client

theorem Apart.step (apart : Apart layout memory s)
    (taken : (machine layout memory).step s event = some next)
    (guarded : LockStep s event next) : Apart layout memory next := by
  change LinkServer.step layout memory s event = some next at taken
  intro other client there
  cases event with
  | registerCallback | startAccept =>
    cases taken
    exact apart other client there
  | connect csq =>
    cases taken
    rw [List.getElem?_append] at there
    split at there
    · exact apart other client there
    · cases List.mem_singleton.mp (List.mem_of_getElem? there)
      exact ⟨fun callFun _ => ⟨_, .initial layout callFun _ csq, .refl _⟩, fun _ => ⟨rfl, rfl⟩⟩
  | handleAccept accepted =>
    obtain ⟨callFun, _, _, _, _, same | ⟨index, before, found, unserved, same⟩⟩ :=
      accepted_of_handleAccept (handleAccept_of_step taken)
    · rw [same] at there
      exact apart other client there
    · rw [same] at there
      rcases client_of_set found there with ⟨rfl, rfl⟩ | old
      · exact ⟨fun callFun _ => (apart other before found).runs callFun (.inl unserved),
          fun gone => by cases gone⟩
      · exact apart other client old
  | line index inner =>
    obtain ⟨before, after, found, unlost, stepped, rfl⟩ := client_of_line taken
    have inside := (List.getElem?_eq_some_iff.mp found).1
    rcases client_of_set found there with ⟨rfl, rfl⟩ | old
    · exact (apart other before found).step unlost stepped
        (guarded before found client (List.getElem?_set_self inside))
    · exact apart other client old
  | reset index =>
    obtain ⟨before, found, rfl⟩ := client_of_reset taken
    rcases client_of_set found there with ⟨rfl, rfl⟩ | old
    · exact (apart other before found).reset
    · exact apart other client old
  | afterReset index inner =>
    obtain ⟨before, callFun, found, served, lost, _, rfl | ⟨session, stepped, rfl⟩⟩ :=
      client_of_afterReset taken
    · exact apart other client there
    · rcases client_of_set found there with ⟨rfl, rfl⟩ | old
      · exact (apart other before found).afterReset served lost stepped
      · exact apart other client old

/-- The callback that is registered behind an event. -/
def Event.register (callFun : Option CallbackFun) : Event → Option CallbackFun
  | .registerCallback f => f
  | _ => callFun

/-- The callback that a server has behind a schedule. -/
def registered (schedule : List Event) : Option CallbackFun :=
  schedule.foldl Event.register none

theorem registered_concat (schedule : List Event) (event : Event) :
    registered (schedule ++ [event]) = event.register (registered schedule) := by
  simp [registered]

/-- An accept began when this callback was registered. -/
def Begun (schedule : List Event) (callFun : Option CallbackFun) : Prop :=
  ∃ before event, before ++ [event] <+: schedule ∧ event.accepts = true ∧
    callFun = registered before

theorem Begun.later {schedule : List Event} {callFun : Option CallbackFun}
    (begun : Begun schedule callFun) (event : Event) : Begun (schedule ++ [event]) callFun := by
  obtain ⟨before, first, early, accepts, same⟩ := begun
  exact ⟨before, first, early.trans (List.prefix_append schedule [event]), accepts, same⟩

private theorem registered_mem (schedule : List Event) :
    registered schedule = none ∨ .registerCallback (registered schedule) ∈ schedule := by
  induction schedule using List.reverseRecOn with
  | nil => exact .inl rfl
  | append_singleton schedule event ih =>
    rw [registered_concat]
    cases event with
    | registerCallback f => exact .inr (by simp [Event.register])
    | _ => exact ih.imp_right (List.mem_append_left _)

theorem Begun.fits {schedule : List Event} {callFun : Option CallbackFun}
    (begun : Begun schedule callFun) (fits : ∀ f, .registerCallback f ∈ schedule → ResultsSound f) :
    ResultsSound callFun := by
  obtain ⟨before, first, early, _, rfl⟩ := begun
  rcases registered_mem before with none | given
  · rw [none]
    exact .unregistered
  · exact fits _ (early.subset (List.mem_append_left _ given))

/-- Where a server and its sessions have their callbacks from. -/
structure Known (schedule : List Event) (s : LinkServer) : Prop where
  own : s.callFun = registered schedule
  waits : ∀ callFun ∈ s.accepting, Begun schedule callFun
  serves : ∀ client ∈ s.clients, ∀ callFun, client.session = some callFun → Begun schedule callFun

theorem Known.step {schedule : List Event} (known : Known schedule s)
    (taken : (machine layout memory).step s event = some next) :
    Known (schedule ++ [event]) next := by
  change LinkServer.step layout memory s event = some next at taken
  have own : event.register s.callFun = registered (schedule ++ [event]) := by
    rw [registered_concat, known.own]
  have waits := fun callFun member => (known.waits callFun member).later event
  have serves := fun client member callFun session =>
    (known.serves client member callFun session).later event
  have begins : event.accepts = true → Begun (schedule ++ [event]) s.callFun :=
    fun accepts => ⟨schedule, event, List.prefix_rfl, accepts, known.own⟩
  cases event with
  | registerCallback f =>
    cases taken
    exact ⟨own, waits, serves⟩
  | startAccept =>
    cases taken
    refine ⟨own, fun callFun member => ?_, serves⟩
    rcases List.mem_append.mp member with old | new
    · exact waits callFun old
    · cases List.mem_singleton.mp new
      exact begins rfl
  | connect csq =>
    cases taken
    refine ⟨own, waits, fun client member callFun session => ?_⟩
    rcases List.mem_append.mp member with old | new
    · exact serves client old callFun session
    · cases List.mem_singleton.mp new
      cases session
  | handleAccept accepted =>
    obtain ⟨callFun, rest, waiting, same, accepting, clients⟩ :=
      accepted_of_handleAccept (handleAccept_of_step taken)
    refine ⟨same ▸ own, fun other member => ?_, fun client member other session => ?_⟩
    · rw [accepting] at member
      rcases List.mem_append.mp member with old | new
      · exact waits other (by rw [waiting]; exact List.mem_cons_of_mem _ old)
      · cases List.mem_singleton.mp new
        exact begins rfl
    · rcases clients with same | ⟨index, before, found, _, same⟩
      · exact serves client (same ▸ member) other session
      · rw [same] at member
        rcases List.mem_or_eq_of_mem_set member with old | rfl
        · exact serves client old other session
        · cases session
          exact waits callFun (by rw [waiting]; exact List.mem_cons_self)
  | line index inner =>
    obtain ⟨before, after, found, _, stepped, rfl⟩ := client_of_line taken
    refine ⟨own, waits, fun client member callFun session => ?_⟩
    rcases List.mem_or_eq_of_mem_set member with old | rfl
    · exact serves client old callFun session
    · exact serves before (List.mem_of_getElem? found) callFun
        ((session_of_stepLine stepped).symm.trans session)
  | reset index =>
    obtain ⟨before, found, rfl⟩ := client_of_reset taken
    refine ⟨own, waits, fun client member callFun session => ?_⟩
    rcases List.mem_or_eq_of_mem_set member with old | rfl
    · exact serves client old callFun session
    · exact serves before (List.mem_of_getElem? found) callFun session
  | afterReset index inner =>
    obtain ⟨before, other, found, _, _, _, rfl | ⟨after, _, rfl⟩⟩ := client_of_afterReset taken
    · exact ⟨own, waits, serves⟩
    · refine ⟨own, waits, fun client member callFun session => ?_⟩
      rcases List.mem_or_eq_of_mem_set member with old | rfl
      · exact serves client old callFun session
      · exact serves before (List.mem_of_getElem? found) callFun session

private theorem known_of_run {schedule : List Event}
    (reached : (machine layout memory).run start schedule = some s) : Known schedule s := by
  induction schedule using List.reverseRecOn generalizing s with
  | nil =>
    cases Option.some.inj reached
    refine ⟨rfl, fun _ member => ?_, fun _ member => ?_⟩ <;> cases member
  | append_singleton schedule event ih =>
    obtain ⟨middle, before, taken⟩ := Machine.run_concat_eq_some.mp reached
    exact (ih before).step taken

private theorem accepting_step (taken : (machine layout memory).step s event = some next) :
    next.accepting.length = s.accepting.length + event.starts := by
  change LinkServer.step layout memory s event = some next at taken
  cases event with
  | registerCallback | connect =>
    cases taken
    rfl
  | startAccept =>
    cases taken
    simp [LinkServer.startAccept, Event.starts]
  | handleAccept accepted =>
    obtain ⟨callFun, rest, waiting, _, accepting, _⟩ :=
      accepted_of_handleAccept (handleAccept_of_step taken)
    simp [Event.starts, waiting, accepting]
  | line index inner =>
    obtain ⟨_, _, _, _, _, rfl⟩ := client_of_line taken
    rfl
  | reset index =>
    obtain ⟨_, _, rfl⟩ := client_of_reset taken
    rfl
  | afterReset index inner =>
    obtain ⟨_, _, _, _, _, _, rfl | ⟨_, _, rfl⟩⟩ := client_of_afterReset taken
    · rfl
    · rfl

private theorem accepting_length {schedule : List Event}
    (reached : (machine layout memory).run s schedule = some next) :
    next.accepting.length = s.accepting.length + (schedule.map Event.starts).sum := by
  induction schedule generalizing s with
  | nil =>
    cases Option.some.inj reached
    rfl
  | cons event rest ih =>
    obtain ⟨middle, taken, later⟩ := Machine.run_cons_eq_some.mp reached
    rw [ih later, accepting_step taken, List.map_cons, List.sum_cons, Nat.add_assoc]

/-- Only a reset connection has ended the server. -/
def EndedByReset (s : LinkServer) : Prop :=
  s.ended = true → ∃ (index : Nat) (client : ClientLine), s.clients[index]? = some client ∧
    client.rpc.session.lost = true

private theorem lost_of_set {clients : List ClientLine} {index other : Nat}
    {old new client : ClientLine}
    (found : clients[index]? = some old) (there : clients[other]? = some client)
    (lost : client.rpc.session.lost = true)
    (keeps : old.rpc.session.lost = true → new.rpc.session.lost = true) :
    ∃ after, (clients.set index new)[other]? = some after ∧ after.rpc.session.lost = true := by
  by_cases same : other = index
  · subst same
    cases found.symm.trans there
    exact ⟨new, List.getElem?_set_self (List.getElem?_eq_some_iff.mp found).1, keeps lost⟩
  · exact ⟨client, (List.getElem?_set_ne (Ne.symm same)).trans there, lost⟩

theorem EndedByReset.step (byReset : EndedByReset s)
    (taken : (machine layout memory).step s event = some next) : EndedByReset next := by
  change LinkServer.step layout memory s event = some next at taken
  intro ended
  cases event with
  | registerCallback | startAccept =>
    cases taken
    exact byReset ended
  | connect csq =>
    cases taken
    obtain ⟨index, client, found, lost⟩ := byReset ended
    exact ⟨index, client, by
      rw [List.getElem?_append_left (List.getElem?_eq_some_iff.mp found).1, found], lost⟩
  | handleAccept accepted =>
    have accept := handleAccept_of_step taken
    have goes : s.ended = false := by
      simp only [LinkServer.step] at taken
      split at taken
      · cases taken
      · rename_i goes
        simpa using goes
    have same : next.ended = s.ended := by
      unfold LinkServer.handleAccept at accept
      split at accept
      · cases accept
      · split at accept
        · cases accept
          rfl
        · obtain ⟨client, _, accept⟩ := Option.bind_eq_some_iff.mp accept
          split at accept
          · cases accept
            rfl
          · cases accept
    cases (same.trans goes).symm.trans ended
  | line index inner =>
    obtain ⟨before, after, found, unlost, _, rfl⟩ := client_of_line taken
    obtain ⟨other, client, there, lost⟩ := byReset ended
    exact ⟨other, lost_of_set found there lost fun gone => by cases unlost.symm.trans gone⟩
  | reset index =>
    obtain ⟨before, found, rfl⟩ := client_of_reset taken
    obtain ⟨other, client, there, lost⟩ := byReset ended
    exact ⟨other, lost_of_set found there lost fun _ => rfl⟩
  | afterReset index inner =>
    obtain ⟨before, callFun, found, served, gone, _, rfl | ⟨session, stepped, rfl⟩⟩ :=
      client_of_afterReset taken
    · exact ⟨index, before, found, gone⟩
    · obtain ⟨other, client, there, lost⟩ := byReset ended
      exact ⟨other, lost_of_set found there lost fun _ =>
        (LinkSession.calls_of_lost gone stepped).1⟩

/-- What a server promises an accepted client; that everything gets delivered,
while the server runs and the client has not reset its connection. -/
structure Served (layout : IntLayout) (memory : Memory) (callFun : Option CallbackFun)
    (s : LinkServer) (client : ClientLine) : Prop where
  executed : client.rpc.Executed callFun
  answered : client.rpc.Answered callFun
  settles : s.ended = false → client.rpc.session.lost = false →
    client.rpc.Serviced layout callFun memory

/-- A server serves each of its clients as if it were the only one, with the
callback that was registered when the server began to wait for it; before it is
accepted a client gets nothing. Calls of `start_accept` from outside alone decide
how many accepts are outstanding. Only a client that resets its connection can end
the server for the others. -/
theorem serviced_of_run (layout : IntLayout) (memory : Nat → Memory)
    {schedule : List Event} {s : LinkServer}
    (reached : (machine layout memory).run start schedule = some s)
    (guarded : (machine layout memory).AllSteps LockStep start schedule)
    (fits : ∀ f, .registerCallback f ∈ schedule → ResultsSound f) :
    s.accepting.length = (schedule.map Event.starts).sum ∧ EndedByReset s ∧
    ∀ index (client : ClientLine), s.clients[index]? = some client →
      client.rpc.asked.length < 2 ^ 32 →
      match client.session with
      | none => client.rpc.session.calls = [] ∧ client.rpc.toClient = []
      | some callFun =>
        Begun schedule callFun ∧ Served layout (memory index) callFun s client := by
  have known := known_of_run reached
  have apart : Apart layout memory s :=
    Machine.run_invariant (Apart layout memory) LockStep
      (fun held taken guard => held.step taken guard)
      (fun index client found => by cases found) guarded reached
  have byReset : EndedByReset s :=
    Machine.run_invariant EndedByReset LockStep (fun held taken _ => held.step taken)
      (fun ended => by cases ended) guarded reached
  have waits := accepting_length reached
  refine ⟨by simpa [start] using waits, byReset, fun index client found few => ?_⟩
  have alone := apart index client found
  split
  · rename_i session
    obtain ⟨nothing, fresh⟩ := alone.unserved session
    exact ⟨by rw [fresh]; rfl, nothing⟩
  · rename_i callFun session
    have begun := known.serves client (List.mem_of_getElem? found) callFun session
    obtain ⟨before, reached, remains⟩ := alone.runs callFun (.inr session)
    have serviced := reached.serviced (begun.fits fits) (remains.asked ▸ few)
    refine ⟨begun, remains.executed serviced.executed, remains.answered serviced.answered, ?_⟩
    intro _ unlost
    rw [remains.whole unlost]
    exact serviced

instance (s : LinkServer) (event : Event) (next : LinkServer) : Decidable (LockStep s event next) :=
  match event with
  | .line index event =>
    inferInstanceAs (Decidable (∀ client ∈ s.clients[index]?, ∀ after ∈ next.clients[index]?,
      RpcSystem.LockStep client.rpc event after.rpc))
  | .registerCallback _ | .startAccept | .connect _ | .handleAccept _ | .reset _
  | .afterReset _ _ => isTrue trivial

/-- Two clients of one server. The first resets its connection. The second is
accepted after the callback was unregistered, and still gets its request answered
by it. -/
def twoClients : List Event :=
  [.registerCallback (some LinkSession.callP), .startAccept, .connect .on, .connect .off,
    .handleAccept (some 0), .registerCallback none] ++
  (RpcSystem.oneExchange.take 9).map (.line 1) ++ [.reset 0, .handleAccept (some 1)] ++
  (RpcSystem.oneExchange.drop 9).map (.line 1)

theorem twoClients_serviced :
    ∃ s client callFun, (machine .littleEndian fun _ => RpcSystem.noMemory).run start twoClients =
        some s ∧
      s.accepting.length = 1 ∧ s.clients[1]? = some client ∧ client.session = some callFun ∧
      client.rpc.session.calls.length = 1 ∧ Begun twoClients callFun ∧
      Served .littleEndian RpcSystem.noMemory callFun s client := by
  have runs : ((machine .littleEndian fun _ => RpcSystem.noMemory).run start twoClients).map
      (fun s => (s.clients[1]?).map fun client => (client.session.isSome,
        client.rpc.session.calls.length, client.rpc.asked.length)) = some (some (true, 1, 1)) := by
    decide +kernel
  obtain ⟨s, reached, there⟩ := Option.map_eq_some_iff.mp runs
  obtain ⟨client, found, facts⟩ := Option.map_eq_some_iff.mp there
  simp only [Prod.mk.injEq] at facts
  obtain ⟨served, calls, asked⟩ := facts
  obtain ⟨callFun, session⟩ := Option.isSome_iff_exists.mp served
  have fits : ∀ f, .registerCallback f ∈ twoClients → ResultsSound f := by
    intro f member
    simp only [twoClients, List.cons_append, List.nil_append, List.mem_append, List.mem_cons,
      List.mem_map, Event.registerCallback.injEq, reduceCtorEq, and_false, exists_false, false_or,
      or_false, List.not_mem_nil] at member
    rcases member with rfl | rfl
    · exact RpcSystem.callP_sound
    · exact .unregistered
  have serviced := serviced_of_run .littleEndian (fun _ => RpcSystem.noMemory) reached
    (by decide +kernel) fits
  have one := serviced.2.2 1 client found (by rw [asked]; decide)
  rw [session] at one
  exact ⟨s, client, callFun, reached, serviced.1, found, session, calls, one⟩

end LinkServer

end RpcLoop
