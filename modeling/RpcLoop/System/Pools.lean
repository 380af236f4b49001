import RpcLoop.Pool.Handles
import RpcLoop.System.Progress

/-! The whole program: callers share the pool, and each of the pool's clients is
connected to the server of its endpoint. A handle says which client took a message
and under which id, and through it a caller finds the answer to its own message. -/

namespace RpcLoop

open Foundation

/-- A client of the pool and what is at the other end of its connection. -/
structure PoolLine where
  ip : List UInt8
  port : Int32
  rpc : RpcSystem

namespace PoolLine

/-- The bytes that a caller passes by a pointer and a length. -/
def passed (sendData : List Cell) (sendSize : Int32) : Option (List UInt8) :=
  if 0 ≤ sendSize ∧ sendSize.toNatClampNeg ≤ sendData.length then
    initialized (sendData.take sendSize.toNatClampNeg)
  else none

/-- The clients of `client_loop`. A call of `write` has its id from here on; what is
left of it are steps of the client. -/
def ops (layout : IntLayout) (fromString : List UInt8 → Bool) : ClientOps PoolLine where
  create ip port := if fromString ip then some { ip, port, rpc := .start .on } else none
  isOpen line := do
    let (answer, _) ← line.rpc.client.loop.link.isOpen
    let client ← line.rpc.client.step layout (.loop .isOpen)
    return (answer, { line with rpc := { line.rpc with client := client } })
  write line sendData sendSize := do
    let body ← passed sendData sendSize
    let rpc ← line.rpc.write layout body
    return (line.rpc.client.loop.msgIndex, { line with rpc := rpc })
  has line reqId := line.rpc.client.loop.recvMsgMap.contains reqId

end PoolLine

/-- The pool, and the messages that the calls of `write` passed which returned its
handles. -/
structure PoolSystem where
  calls : PoolCalls PoolLine := {}
  messages : List (List UInt8) := []

namespace PoolSystem

/-- What happens on one of the connections, or else to the pool. -/
inductive Event where
  | call (event : PoolEvent PoolLine)
  | line (ident : Nat) (event : RpcSystem.Event)

/-- A client in the vector, by its identity. -/
def clientOf (s : PoolSystem) (ident : Nat) : Option (PoolClient PoolLine) :=
  s.calls.pool.clientList.find? fun c => c.ident == ident

/-- The message of a `write` that returns its handle. -/
def returning (s : PoolSystem) : PoolEvent PoolLine → Option (List UInt8)
  | .send caller =>
    match s.calls.callers[caller]? with
    | some (.sending args _ used) =>
      if (s.calls.clientOf used).isSome then PoolLine.passed args.sendData args.sendSize
      else none
    | _ => none
  | _ => none

variable (layout : IntLayout) (fromString : List UInt8 → Bool)
  (callFun : List UInt8 → Int32 → Option CallbackFun) (memory : Nat → Memory)

/-- Clients in the vector go on as their connections do; what becomes of those that
were removed is open. -/
def step (s : PoolSystem) : Event → Option PoolSystem
  | .call (.clientRuns ident client) =>
    if (s.clientOf ident).isSome then none
    else some { s with calls := s.calls.clientRuns ident client }
  | .call event => do
    let calls ← s.calls.step (PoolLine.ops layout fromString) event
    return { calls := calls, messages := s.messages ++ (s.returning event).toList }
  | .line ident event => do
    let c ← s.clientOf ident
    let rpc ← c.client.rpc.step layout (callFun c.client.ip c.client.port) (memory ident) event
    return { s with calls := s.calls.clientRuns ident { c.client with rpc := rpc } }

def machine : Machine PoolSystem Event where
  step := step layout fromString callFun memory

/-- On every connection replies leave one at a time, and no call of the pool is left
without the client it subscripted. -/
def LockStep (s : PoolSystem) (event : Event) (next : PoolSystem) : Prop :=
  match event with
  | .line ident event => ∀ c ∈ s.clientOf ident, ∀ after ∈ next.clientOf ident,
      RpcSystem.LockStep c.client.rpc event after.client.rpc
  | .call event => s.calls.FindsClient event

end PoolSystem

/-! ### Steps of the clients -/

/-- The client is the same, at most one step further on its connection. -/
structure Goes (layout : IntLayout) (callFun : List UInt8 → Int32 → Option CallbackFun)
    (memory : Nat → Memory) (old new : PoolClient PoolLine) : Prop where
  ident : new.ident = old.ident
  ip : new.client.ip = old.client.ip
  port : new.client.port = old.client.port
  moves : new.client.rpc = old.client.rpc ∨
    ∃ event, (RpcSystem.machine layout (callFun old.client.ip old.client.port)
        (memory old.ident)).step old.client.rpc event = some new.client.rpc ∧
      RpcSystem.LockStep old.client.rpc event new.client.rpc

/-- What the callers of a client know of its connection. -/
def PoolClient.Reached (layout : IntLayout) (callFun : List UInt8 → Int32 → Option CallbackFun)
    (memory : Nat → Memory) (c : PoolClient PoolLine) : Prop :=
  c.client.rpc.Reached layout (callFun c.client.ip c.client.port) (memory c.ident)

/-- Every client of a pool was there before, or is new. -/
def Follows (layout : IntLayout) (callFun : List UInt8 → Int32 → Option CallbackFun)
    (memory : Nat → Memory) (pool after : ClientLoopPool PoolLine) : Prop :=
  ∀ new ∈ after.clientList, (∃ old ∈ pool.clientList, Goes layout callFun memory old new) ∨
    new.ident = pool.created ∧ new.client.rpc = .start .on

section Clients

variable {layout : IntLayout} {fromString : List UInt8 → Bool}
  {callFun : List UInt8 → Int32 → Option CallbackFun} {memory : Nat → Memory}
  {old new c : PoolClient PoolLine} {pool after : ClientLoopPool PoolLine}

theorem Goes.refl (c : PoolClient PoolLine) : Goes layout callFun memory c c :=
  ⟨rfl, rfl, rfl, .inl rfl⟩

theorem Goes.reached (goes : Goes layout callFun memory old new)
    (reached : old.Reached layout callFun memory) : new.Reached layout callFun memory := by
  unfold PoolClient.Reached
  rw [goes.ident, goes.ip, goes.port]
  rcases goes.moves with same | ⟨event, taken, guarded⟩
  · rw [same]
    exact reached
  · exact RpcSystem.Reached.step reached taken guarded

theorem Goes.asked (goes : Goes layout callFun memory old new) :
    old.client.rpc.asked <+: new.client.rpc.asked := by
  rcases goes.moves with same | ⟨event, taken, _⟩
  · rw [same]
  · exact RpcSystem.asked_grows (RpcSystem.transition_of_step taken)

theorem Follows.same (clients : after.clientList = pool.clientList) :
    Follows layout callFun memory pool after :=
  fun new member => .inl ⟨new, clients ▸ member, .refl new⟩

private theorem goes_of_isOpen {answer : Bool} {line : PoolLine}
    (asked : (PoolLine.ops layout fromString).isOpen c.client = some (answer, line)) :
    Goes layout callFun memory c { c with client := line } := by
  simp only [PoolLine.ops, Option.bind_eq_bind, Option.bind_eq_some_iff, Option.pure_def,
    Option.some.injEq, Prod.mk.injEq] at asked
  obtain ⟨_, _, client, stepped, _, rfl⟩ := asked
  refine ⟨rfl, rfl, rfl, .inr ⟨.client .isOpen, ?_, WireClient.keepsFrames_of_quiet rfl⟩⟩
  simp [RpcSystem.machine, RpcSystem.step, RpcSystem.lasting, RpcSystem.breaks, stepped]

/-- `write` on a line is a call of its client's. -/
theorem wrote_of_write {sendData : List Cell} {sendSize r : Int32} {line after : PoolLine}
    (written : (PoolLine.ops layout fromString).write line sendData sendSize = some (r, after)) :
    ∃ body rpc, PoolLine.passed sendData sendSize = some body ∧
      line.rpc.write layout body = some rpc ∧ r = line.rpc.client.loop.msgIndex ∧
      after = { line with rpc := rpc } := by
  simp only [PoolLine.ops, Option.bind_eq_bind, Option.bind_eq_some_iff, Option.pure_def,
    Option.some.injEq, Prod.mk.injEq] at written
  obtain ⟨body, passed, rpc, stepped, id, same⟩ := written
  exact ⟨body, rpc, passed, stepped, id.symm, same.symm⟩

private theorem goes_of_write {sendData : List Cell} {sendSize r : Int32} {line : PoolLine}
    (written : (PoolLine.ops layout fromString).write c.client sendData sendSize =
      some (r, line)) : Goes layout callFun memory c { c with client := line } := by
  obtain ⟨body, rpc, _, stepped, _, rfl⟩ := wrote_of_write written
  exact ⟨rfl, rfl, rfl, .inr ⟨.write body, stepped, trivial⟩⟩

/-- A client that goes on, wherever it stands. -/
theorem Follows.clientRuns {calls : PoolCalls PoolLine} {ident : Nat} {line : PoolLine}
    (goes : ∀ c ∈ calls.pool.clientList, c.ident = ident →
      Goes layout callFun memory c { c with client := line }) :
    Follows layout callFun memory calls.pool (calls.clientRuns ident line).pool := by
  intro new member
  obtain ⟨c, known, rfl⟩ := List.mem_map.mp member
  refine .inl ⟨c, known, ?_⟩
  split
  · exact goes c known ‹_›
  · exact .refl c

private theorem asked_of_write {sendData : List Cell} {sendSize r : Int32} {line after : PoolLine}
    (written : (PoolLine.ops layout fromString).write line sendData sendSize = some (r, after)) :
    ∃ body a, PoolLine.passed sendData sendSize = some body ∧
      after.rpc.asked = line.rpc.asked ++ [a] ∧ a.request.reqId = r ∧ a.request.body = body := by
  obtain ⟨body, rpc, passed, stepped, rfl, rfl⟩ := wrote_of_write written
  simp only [RpcSystem.write] at stepped
  split at stepped
  · obtain ⟨client, _, same⟩ := Option.bind_eq_some_iff.mp stepped
    cases same
    exact ⟨body, _, passed, rfl, rfl, rfl⟩
  · cases stepped

private theorem mem_setClient {index : Int32} {line : PoolLine} (distinct : pool.idents.Nodup)
    (found : pool.clientAt index = some c)
    (member : new ∈ (pool.setClient index line).clientList) :
    new = { c with client := line } ∨ new ∈ pool.clientList ∧ new.ident ≠ c.ident := by
  obtain ⟨position, there⟩ := List.getElem?_of_mem member
  simp only [ClientLoopPool.setClient, List.getElem?_modify] at there
  simp only [ClientLoopPool.clientAt] at found
  split at found
  · by_cases same : index.toNatClampNeg = position
    · subst same
      rw [found] at there
      exact .inl (by simpa using there.symm)
    · obtain ⟨other, before, rfl⟩ := Option.map_eq_some_iff.mp there
      simp only [if_neg same]
      refine .inr ⟨List.mem_of_getElem? before, fun equal => same ?_⟩
      have inside := (List.getElem?_eq_some_iff.mp found).1
      refine (List.getElem?_inj (by simpa [ClientLoopPool.idents] using inside) distinct).mp ?_
      simp [ClientLoopPool.idents, found, before, equal]
  · cases found

theorem Follows.setClient {index : Int32} {line : PoolLine} (distinct : pool.idents.Nodup)
    (found : pool.clientAt index = some c)
    (goes : Goes layout callFun memory c { c with client := line }) :
    Follows layout callFun memory pool (pool.setClient index line) := by
  intro new member
  refine .inl ?_
  rcases mem_setClient distinct found member with rfl | ⟨other, _⟩
  · refine ⟨c, ?_, goes⟩
    unfold ClientLoopPool.clientAt at found
    split at found
    · exact List.mem_of_getElem? found
    · cases found
  · exact ⟨new, other, .refl new⟩

theorem Follows.addLink (ip : List UInt8) (port : Int32) :
    Follows layout callFun memory pool
      (pool.addLinkLocked (PoolLine.ops layout fromString) ip port).1 := by
  rcases ClientLoopPool.addLinkLocked_cases (PoolLine.ops layout fromString) pool ip port with
    ⟨_, result⟩ | ⟨_, _, result⟩ | ⟨_, client, created, result⟩
  · rw [result]
    exact .same rfl
  · rw [result]
    exact .same rfl
  · rw [result]
    intro new member
    rcases List.mem_append.mp member with old | fresh
    · exact .inl ⟨new, old, .refl new⟩
    · cases List.mem_singleton.mp fresh
      refine .inr ⟨rfl, ?_⟩
      simp only [PoolLine.ops] at created
      split at created
      · cases created
        rfl
      · cases created

theorem Follows.probe {index : Int32} {answer : Bool} (distinct : pool.idents.Nodup)
    (probed : pool.probe (PoolLine.ops layout fromString) = some (index, answer, after)) :
    Follows layout callFun memory pool after := by
  simp only [ClientLoopPool.probe, Option.bind_eq_bind, Option.bind_eq_some_iff, Option.pure_def,
    Option.some.injEq, Prod.mk.injEq] at probed
  obtain ⟨c, found, ⟨_, line⟩, asked, rfl, _, rfl⟩ := probed
  exact Follows.setClient distinct found (goes_of_isOpen asked)

end Clients

/-! ### Handles -/

namespace PoolCalls

/-- A state without what calls of `read` have left in it. -/
def unread {κ : Type} (s : PoolCalls κ) : PoolCalls κ := { s with readers := [], uses := [] }

/-- Choices and handles know whether their client is still in its place, whatever
callers have used. -/
def Placed {κ : Type} (s : PoolCalls κ) : Prop := Traced s.unread

variable {κ : Type} {ops : ClientOps κ} {s next : PoolCalls κ} {event : PoolEvent κ}

private theorem unread_link (caller : Nat) :
    s.unread.link ops caller = (s.link ops caller).map unread := by
  simp only [PoolCalls.link, locked, unread]
  split
  · by_cases held : s.callers.any PoolCaller.locks = true
    · simp only [held, if_true, Option.map_none]
    · simp only [held, Bool.false_eq_true, if_false]
      split <;> rfl
  · rfl

private theorem unread_lock (caller : Nat) : s.unread.lock caller = (s.lock caller).map unread := by
  simp only [PoolCalls.lock, unread]
  split
  · by_cases room : 0 < s.pool.curClientIndex
    · simp only [room, if_true, Option.map_some]
      rfl
    · simp only [room, if_false, Option.map_some]
      rfl
  · rfl

private theorem unread_probe (caller : Nat) :
    s.unread.probe ops caller = (s.probe ops caller).map unread := by
  simp only [PoolCalls.probe, unread]
  split
  · cases s.pool.probe ops with
    | none => rfl
    | some probed =>
      obtain ⟨index, answer, pool⟩ := probed
      simp only [Option.bind_eq_bind, Option.bind_some]
      cases pool.clientAt index <;> rfl
  · rfl

private theorem unread_destroy (ip : List UInt8) (port : Int32) :
    s.unread.destroy ip port = (s.destroy ip port).map unread := by
  simp only [PoolCalls.destroy, locked, unread]
  by_cases held : s.callers.any PoolCaller.locks = true
  · simp only [held, if_true, Option.map_none]
  · simp only [held, Bool.false_eq_true, if_false]
    split <;> rfl

theorem Placed.subscript (placed : Placed s) {caller : Nat}
    (taken : s.subscript caller = some next) : Placed next := by
  have traced : Traced s.unread := placed
  obtain ⟨args, c, found, ⟨_, rfl⟩ | ⟨client, here, rfl⟩⟩ := subscript_cases taken
  · refine traced.frame (traced.extends_same rfl rfl) ?_ (fun _ member => .inl member)
      (fun _ member => .inl member) traced.attached
    exact fun _ member => .inl (List.mem_of_mem_eraseIdx member)
  · have known : Known s.pool c := traced.callers _ (List.mem_of_getElem? found)
    refine traced.frame (traced.extends_same rfl rfl) ?_ (fun _ member => .inl member)
      (fun _ member => .inl member) traced.attached
    intro other member
    rcases List.mem_or_eq_of_mem_set member with before | rfl
    · exact .inl before
    · have shows := known.shows_iff
      rw [here, Option.map_some, Option.some.injEq] at shows
      exact .inr ⟨known, shows.mpr⟩

theorem Placed.send (placed : Placed s) {caller : Nat} (taken : s.send ops caller = some next) :
    Placed next := by
  have traced : Traced s.unread := placed
  obtain ⟨args, c, used, found, ⟨_, rfl⟩ | ⟨client, r, after, _, _, rfl⟩⟩ := send_cases taken
  · refine traced.frame (traced.extends_same rfl rfl) ?_ (fun _ member => .inl member)
      (fun _ member => .inl member) traced.attached
    exact fun _ member => .inl (List.mem_of_mem_eraseIdx member)
  · obtain ⟨known, _⟩ : Known s.pool c ∧ _ := traced.callers _ (List.mem_of_getElem? found)
    have extended : Extends s.pool (s.clientRuns used after).pool :=
      traced.extends_same (clientRuns_idents s used after) rfl
    refine traced.frame extended (fun _ member => .inl (List.mem_of_mem_eraseIdx member)) ?_
      (fun _ member => .inl member) traced.attached
    intro h member
    rcases List.mem_append.mp member with before | new
    · exact .inl before
    · rw [List.mem_singleton.mp new]
      exact .inr (extended.known c known)

theorem Placed.step (placed : Placed s) (taken : s.step ops event = some next) : Placed next := by
  have traced : Traced s.unread := placed
  cases event with
  | write args =>
    cases taken
    exact traced.begin args
  | addLink caller =>
    change s.link ops caller = some next at taken
    exact traced.link (by rw [unread_link, taken, Option.map_some])
  | lock caller =>
    change s.lock caller = some next at taken
    exact traced.lock (by rw [unread_lock, taken, Option.map_some])
  | probe caller =>
    change s.probe ops caller = some next at taken
    exact traced.probe (by rw [unread_probe, taken, Option.map_some])
  | subscript caller => exact placed.subscript taken
  | send caller => exact placed.send taken
  | read handle =>
    obtain ⟨_, _, ⟨_, rfl⟩ | ⟨_, _, rfl⟩⟩ := read_cases taken <;> exact placed
  | find reader =>
    obtain ⟨_, _, ⟨_, rfl⟩ | ⟨_, _, ⟨_, rfl⟩ | ⟨_, rfl⟩⟩⟩ := find_cases taken <;> exact placed
  | leave reader =>
    obtain ⟨_, _, ⟨_, rfl⟩ | ⟨_, rfl⟩⟩ := leave_cases taken <;> exact placed
  | ended ident =>
    simp only [PoolCalls.step, PoolCalls.endClient] at taken
    split at taken
    · cases taken
      exact ⟨traced.toNumbered, traced.callers, traced.handles, traced.readers, traced.attached⟩
    · cases taken
  | destroy ip port =>
    change s.destroy ip port = some next at taken
    exact traced.destroy (by rw [unread_destroy, taken, Option.map_some])
  | setCMaxNum v =>
    cases taken
    exact traced.setCMaxNum v
  | clientRuns ident client =>
    cases taken
    exact traced.clientRuns ident client

end PoolCalls

namespace PoolSystem

variable {layout : IntLayout} {fromString : List UInt8 → Bool}
  {callFun : List UInt8 → Int32 → Option CallbackFun} {memory : Nat → Memory}
  {s next : PoolSystem} {event : Event}

private theorem follows_call {calls after : PoolCalls PoolLine} {event : PoolEvent PoolLine}
    (distinct : calls.pool.idents.Nodup)
    (taken : calls.step (PoolLine.ops layout fromString) event = some after)
    (apart : ∀ ident client, event ≠ .clientRuns ident client) :
    Follows layout callFun memory calls.pool after.pool := by
  cases event with
  | write args =>
    cases taken
    exact .same rfl
  | addLink caller =>
    simp only [PoolCalls.step, PoolCalls.link] at taken
    split at taken
    · rename_i args found
      have follows : Follows layout callFun memory calls.pool (calls.pool.addLinkLocked
          (PoolLine.ops layout fromString) args.ip args.port).1 := .addLink args.ip args.port
      split at taken
      · cases taken
      · split at taken <;> rename_i result <;> cases taken <;> rw [result] at follows <;>
          exact follows
    · cases taken
  | lock caller =>
    simp only [PoolCalls.step, PoolCalls.lock] at taken
    split at taken
    · split at taken <;> cases taken <;> exact .same rfl
    · cases taken
  | probe caller =>
    simp only [PoolCalls.step, PoolCalls.probe] at taken
    split at taken
    · simp only [Option.bind_eq_bind, Option.bind_eq_some_iff, Option.pure_def] at taken
      obtain ⟨⟨index, answer, pool⟩, probed, client, _, same⟩ := taken
      cases same
      exact .probe distinct probed
    · cases taken
  | subscript caller =>
    obtain ⟨_, _, _, ⟨_, rfl⟩ | ⟨_, _, rfl⟩⟩ := PoolCalls.subscript_cases taken <;> exact .same rfl
  | send caller =>
    obtain ⟨args, c, used, _, ⟨_, rfl⟩ | ⟨client, r, line, there, written, rfl⟩⟩ :=
      PoolCalls.send_cases taken
    · exact .same rfl
    · refine Follows.clientRuns fun other member same => ?_
      have only := PoolCalls.clientOf_member distinct member
      rw [same, there] at only
      cases only
      exact goes_of_write written
  | read handle =>
    obtain ⟨_, _, ⟨_, rfl⟩ | ⟨_, _, rfl⟩⟩ := PoolCalls.read_cases taken <;> exact .same rfl
  | find reader =>
    obtain ⟨_, _, ⟨_, rfl⟩ | ⟨_, _, ⟨_, rfl⟩ | ⟨_, rfl⟩⟩⟩ := PoolCalls.find_cases taken <;>
      exact .same rfl
  | leave reader =>
    obtain ⟨_, _, ⟨_, rfl⟩ | ⟨_, rfl⟩⟩ := PoolCalls.leave_cases taken <;> exact .same rfl
  | ended ident =>
    simp only [PoolCalls.step, PoolCalls.endClient] at taken
    split at taken
    · cases taken
      exact .same rfl
    · cases taken
  | destroy ip port =>
    simp only [PoolCalls.step, PoolCalls.destroy] at taken
    split at taken
    · cases taken
    · split at taken
      · cases taken
        exact .same rfl
      · rename_i index found
        cases taken
        intro new member
        refine .inl ⟨new, ?_, .refl new⟩
        simp only [ClientLoopPool.destroy, found] at member
        exact List.mem_of_mem_eraseIdx member
  | setCMaxNum v =>
    cases taken
    refine .same ?_
    simp only [ClientLoopPool.setCMaxNum]
    split <;> rfl
  | clientRuns ident client => exact absurd rfl (apart ident client)

/-- What a call does to the handles. -/
inductive Hands (calls after : PoolCalls PoolLine) : Option (List UInt8) → Prop where
  | same (handles : after.handles = calls.handles) : Hands calls after none
  | moved (index : Nat) (handles : after.handles = calls.handles.map (·.erased index)) :
      Hands calls after none
  | returned (args : WriteArgs) (c : Chosen) (used : Nat) (r : Int32) (body : List UInt8)
      (client : PoolClient PoolLine) (line : PoolLine) (a : Asked)
      (sending : .sending args c used ∈ calls.callers)
      (there : calls.clientOf used = some client)
      (pool : after.pool = (calls.clientRuns used line).pool)
      (handles : after.handles = calls.handles ++ [{ chosen := c, r := r }])
      (asked : line.rpc.asked = client.client.rpc.asked ++ [a])
      (id : a.request.reqId = r) (text : a.request.body = body) :
      Hands calls after (some body)

private theorem hands_call {after : PoolCalls PoolLine} {event : PoolEvent PoolLine}
    (taken : s.calls.step (PoolLine.ops layout fromString) event = some after) :
    Hands s.calls after (s.returning event) := by
  cases event with
  | write | setCMaxNum | clientRuns =>
    cases taken
    exact .same rfl
  | addLink caller =>
    simp only [PoolCalls.step, PoolCalls.link] at taken
    split at taken
    · split at taken
      · cases taken
      · split at taken <;> cases taken <;> exact .same rfl
    · cases taken
  | lock caller =>
    simp only [PoolCalls.step, PoolCalls.lock] at taken
    split at taken
    · split at taken <;> cases taken <;> exact .same rfl
    · cases taken
  | probe caller =>
    simp only [PoolCalls.step, PoolCalls.probe] at taken
    split at taken
    · simp only [Option.bind_eq_bind, Option.bind_eq_some_iff, Option.pure_def] at taken
      obtain ⟨_, _, _, _, same⟩ := taken
      cases same
      exact .same rfl
    · cases taken
  | subscript caller =>
    obtain ⟨_, _, _, ⟨_, rfl⟩ | ⟨_, _, rfl⟩⟩ := PoolCalls.subscript_cases taken <;> exact .same rfl
  | send caller =>
    obtain ⟨args, c, used, found, ⟨gone, rfl⟩ | ⟨client, r, line, there, written, rfl⟩⟩ :=
      PoolCalls.send_cases taken
    · simp only [returning, found, gone]
      exact .same rfl
    · obtain ⟨body, a, passed, asked, id, text⟩ := asked_of_write written
      simp only [returning, found, there, Option.isSome_some, if_true, passed]
      exact .returned args c used r body client line a (List.mem_of_getElem? found) there rfl rfl
        asked id text
  | read handle =>
    obtain ⟨_, _, ⟨_, rfl⟩ | ⟨_, _, rfl⟩⟩ := PoolCalls.read_cases taken <;> exact .same rfl
  | find reader =>
    obtain ⟨_, _, ⟨_, rfl⟩ | ⟨_, _, ⟨_, rfl⟩ | ⟨_, rfl⟩⟩⟩ := PoolCalls.find_cases taken <;>
      exact .same rfl
  | leave reader =>
    obtain ⟨_, _, ⟨_, rfl⟩ | ⟨_, rfl⟩⟩ := PoolCalls.leave_cases taken <;> exact .same rfl
  | ended ident =>
    simp only [PoolCalls.step, PoolCalls.endClient] at taken
    split at taken
    · cases taken
      exact .same rfl
    · cases taken
  | destroy ip port =>
    simp only [PoolCalls.step, PoolCalls.destroy] at taken
    split at taken
    · cases taken
    · split at taken
      · cases taken
        exact .same rfl
      · rename_i index found
        cases taken
        exact .moved index rfl

/-- The client of a handle has the message under the handle's id. -/
def Wrote (pool : ClientLoopPool PoolLine) (h : PoolHandle) (body : List UInt8) : Prop :=
  h.chosen.moved = false → ∀ c ∈ pool.clientList, c.ident = h.chosen.ident →
    ∃ a ∈ c.client.rpc.asked, a.request.reqId = h.r ∧ a.request.body = body

/-- Two handles of one client have different ids. -/
def Differ (pool : ClientLoopPool PoolLine) (h other : PoolHandle) : Prop :=
  h.chosen.moved = false → other.chosen.moved = false → h.chosen.ident = other.chosen.ident →
    ∀ c ∈ pool.clientList, c.ident = h.chosen.ident → c.client.rpc.asked.length < 2 ^ 32 →
      h.r ≠ other.r

/-- The invariant of the whole program. -/
structure Sound (layout : IntLayout) (callFun : List UInt8 → Int32 → Option CallbackFun)
    (memory : Nat → Memory) (s : PoolSystem) : Prop where
  placed : s.calls.Placed
  lines : ∀ c ∈ s.calls.pool.clientList, c.Reached layout callFun memory
  wrote : List.Forall₂ (Wrote s.calls.pool) s.calls.handles s.messages
  differ : s.calls.handles.Pairwise (Differ s.calls.pool)

variable {pool after : ClientLoopPool PoolLine} {h other : PoolHandle} {body : List UInt8}

/-- A client that is not new is one from before. -/
theorem Follows.before (follows : Follows layout callFun memory pool after)
    {new : PoolClient PoolLine} (member : new ∈ after.clientList) (old : new.ident < pool.created) :
    ∃ c ∈ pool.clientList, Goes layout callFun memory c new := by
  rcases follows new member with known | ⟨fresh, _⟩
  · exact known
  · exact absurd old (by omega)

theorem Wrote.follows (wrote : Wrote pool h body) (old : h.chosen.ident < pool.created)
    (follows : Follows layout callFun memory pool after) : Wrote after h body := by
  intro still new member same
  obtain ⟨c, known, goes⟩ := Follows.before follows member (same ▸ old)
  obtain ⟨a, asked, about⟩ := wrote still c known (goes.ident.symm.trans same)
  exact ⟨a, goes.asked.subset asked, about⟩

theorem Differ.follows (differ : Differ pool h other) (old : h.chosen.ident < pool.created)
    (follows : Follows layout callFun memory pool after) : Differ after h other := by
  intro still stays equal new member same few
  obtain ⟨c, known, goes⟩ := Follows.before follows member (same ▸ old)
  exact differ still stays equal c known (goes.ident.symm.trans same)
    (Nat.lt_of_le_of_lt goes.asked.length_le few)

private theorem still_of_erased {index : Nat} (still : (h.erased index).chosen.moved = false) :
    h.chosen.moved = false :=
  (Bool.or_eq_false_iff.mp still).1

/-- Where the clients go on, so does what handles know of them. -/
theorem Sound.follows (sound : Sound layout callFun memory s)
    (follows : Follows layout callFun memory s.calls.pool after) :
    (∀ c ∈ after.clientList, c.Reached layout callFun memory) ∧
      List.Forall₂ (Wrote after) s.calls.handles s.messages ∧
      s.calls.handles.Pairwise (Differ after) := by
  have old : ∀ h ∈ s.calls.handles, h.chosen.ident < s.calls.pool.created :=
    fun h member => (sound.placed.handles h member).old
  refine ⟨fun new member => ?_, ?_, ?_⟩
  · rcases follows new member with ⟨c, known, goes⟩ | ⟨_, fresh⟩
    · exact goes.reached (sound.lines c known)
    · unfold PoolClient.Reached
      rw [fresh]
      exact .initial _ _ _ _
  · refine List.forall₂_iff_zip.mpr ⟨sound.wrote.length_eq, fun {h body} pair => ?_⟩
    have wrote := (List.forall₂_iff_zip.mp sound.wrote).2 pair
    exact wrote.follows (old h (List.of_mem_zip pair).1) follows
  · exact sound.differ.imp_of_mem fun member _ differ => differ.follows (old _ member) follows

/-- A client that takes a message has it from then on under its newest id. -/
theorem Sound.took (sound : Sound layout callFun memory s) {args : WriteArgs} {c : Chosen}
    {client : PoolClient PoolLine} {line : PoolLine} {a : Asked}
    {used : Nat} (sending : .sending args c used ∈ s.calls.callers)
    (there : s.calls.clientOf used = some client)
    (asked : line.rpc.asked = client.client.rpc.asked ++ [a]) (still : c.moved = false)
    {new : PoolClient PoolLine} (member : new ∈ (s.calls.clientRuns used line).pool.clientList)
    (same : new.ident = c.ident) :
    client ∈ s.calls.pool.clientList ∧ client.ident = c.ident ∧
      new.client.rpc.asked = client.client.rpc.asked ++ [a] := by
  obtain ⟨_, straight⟩ : PoolCalls.Known s.calls.pool c ∧ (c.moved = false → used = c.ident) :=
    sound.placed.callers _ sending
  obtain rfl := straight still
  obtain ⟨old, known, rfl⟩ := List.mem_map.mp member
  have ident : old.ident = c.ident := by
    split at same
    · exact same
    · exact same
  have only : s.calls.clientOf old.ident = some old :=
    PoolCalls.clientOf_member sound.placed.distinct known
  rw [ident, there] at only
  cases only
  rw [if_pos ident]
  exact ⟨known, ident, asked⟩

theorem Sound.call {calls : PoolCalls PoolLine} {event : PoolEvent PoolLine}
    (sound : Sound layout callFun memory s) (fits : ∀ ip port, ResultsSound (callFun ip port))
    (taken : s.calls.step (PoolLine.ops layout fromString) event = some calls)
    (apart : ∀ ident client, event ≠ .clientRuns ident client) :
    Sound layout callFun memory
      { calls := calls, messages := s.messages ++ (s.returning event).toList } := by
  have placed := sound.placed.step taken
  obtain ⟨lines, wrote, differ⟩ :=
    sound.follows (follows_call sound.placed.distinct taken apart)
  have hands := hands_call taken
  generalize s.returning event = message at hands
  cases hands with
  | same handles =>
    refine ⟨placed, lines, ?_, handles ▸ differ⟩
    simpa [handles] using wrote
  | moved index handles =>
    refine ⟨placed, lines, ?_, ?_⟩
    · simp only [handles, Option.toList_none, List.append_nil, List.forall₂_map_left_iff]
      exact wrote.imp fun h body known still => known (still_of_erased still)
    · rw [handles]
      refine List.Pairwise.map _ ?_ differ
      exact fun h other known still stays =>
        known (still_of_erased still) (still_of_erased stays)
  | returned args c used r body client line a sending there pool handles asked id text =>
    refine ⟨placed, lines, ?_, ?_⟩
    · rw [handles]
      refine List.rel_append wrote (.cons ?_ .nil)
      intro still new member same
      obtain ⟨_, _, taken⟩ := sound.took sending there asked still (pool ▸ member) same
      exact ⟨a, by rw [taken]; exact List.mem_concat_self, id, text⟩
    · rw [handles]
      refine List.pairwise_append.mpr ⟨differ, List.pairwise_singleton _ _, ?_⟩
      intro h before new member still stays equal next known same few
      cases List.mem_singleton.mp member
      obtain ⟨old, ident, taken⟩ :=
        sound.took sending there asked stays (pool ▸ known) (same.trans equal)
      -- The older handle's message is among those that the client had before.
      obtain ⟨index, inside, rfl⟩ := List.getElem_of_mem before
      have own := sound.wrote.get inside (by rw [← sound.wrote.length_eq]; exact inside)
      obtain ⟨b, earlier, about, _⟩ := own still client old (ident.trans equal.symm)
      obtain ⟨_, _, _, _, _, delivering⟩ :=
        ((lines next known).moving (fits _ _) few).delivering
      have ids := delivering.answering.serving.requesting.ids_nodup few
      rw [taken, List.map_append, List.nodup_append] at ids
      exact fun equal => ids.2.2 b.request.reqId (List.mem_map_of_mem earlier) a.request.reqId
        (by simp) (about.trans (equal.trans id.symm))

/-- A client in the vector goes on. -/
theorem Sound.runs {ident : Nat} {line : PoolLine} (sound : Sound layout callFun memory s)
    (goes : ∀ c ∈ s.calls.pool.clientList, c.ident = ident →
      Goes layout callFun memory c { c with client := line }) :
    Sound layout callFun memory { s with calls := s.calls.clientRuns ident line } := by
  have taken : s.calls.step (PoolLine.ops layout fun _ => true) (.clientRuns ident line) =
      some (s.calls.clientRuns ident line) := rfl
  obtain ⟨lines, wrote, differ⟩ := sound.follows (Follows.clientRuns goes)
  exact ⟨sound.placed.step taken, lines, wrote, differ⟩

theorem clientOf_cases {ident : Nat} {c : PoolClient PoolLine} (found : s.clientOf ident = some c) :
    c ∈ s.calls.pool.clientList ∧ c.ident = ident :=
  ⟨List.mem_of_find?_eq_some found, by simpa using List.find?_some found⟩

private theorem clientOf_clientRuns {ident : Nat} {c : PoolClient PoolLine} {line : PoolLine}
    (found : s.clientOf ident = some c) :
    ({ s with calls := s.calls.clientRuns ident line } : PoolSystem).clientOf ident =
      some { c with client := line } := by
  have same := (clientOf_cases found).2
  have tests : ((fun c => c.ident == ident) ∘ fun c : PoolClient PoolLine =>
      if c.ident = ident then { c with client := line } else c) = fun c => c.ident == ident := by
    funext other
    simp only [Function.comp_apply]
    split <;> rfl
  simp only [clientOf] at found
  simp only [clientOf, PoolCalls.clientRuns, List.find?_map, tests, found, Option.map_some, same,
    if_true]

theorem Sound.line {ident : Nat} {event : RpcSystem.Event} (sound : Sound layout callFun memory s)
    (taken : s.step layout fromString callFun memory (.line ident event) = some next)
    (guarded : LockStep s (.line ident event) next) : Sound layout callFun memory next := by
  simp only [PoolSystem.step, Option.bind_eq_bind, Option.bind_eq_some_iff,
    Option.pure_def, Option.some.injEq] at taken
  obtain ⟨c, found, rpc, stepped, rfl⟩ := taken
  obtain ⟨known, same⟩ := clientOf_cases found
  have lockStep := guarded c found _ (clientOf_clientRuns found)
  refine sound.runs fun other member equal => ?_
  have only : other = c :=
    List.inj_on_of_nodup_map sound.placed.distinct member known (equal.trans same.symm)
  subst only
  exact ⟨rfl, rfl, rfl, .inr ⟨event, by rw [same]; exact stepped, lockStep⟩⟩

theorem Sound.step (sound : Sound layout callFun memory s)
    (fits : ∀ ip port, ResultsSound (callFun ip port))
    (taken : (machine layout fromString callFun memory).step s event = some next)
    (guarded : LockStep s event next) : Sound layout callFun memory next := by
  change PoolSystem.step layout fromString callFun memory s event = some next at taken
  cases event with
  | line ident event => exact sound.line taken guarded
  | call event =>
    cases event with
    | clientRuns ident client =>
      simp only [PoolSystem.step] at taken
      split at taken
      · cases taken
      · rename_i retired
        cases taken
        refine sound.runs fun c member equal => ?_
        refine absurd ?_ retired
        rw [clientOf, List.find?_isSome]
        exact ⟨c, member, by simp [equal]⟩
    | _ =>
      simp only [PoolSystem.step, Option.bind_eq_bind, Option.bind_eq_some_iff, Option.pure_def,
        Option.some.injEq] at taken
      obtain ⟨calls, stepped, rfl⟩ := taken
      exact sound.call fits stepped fun _ _ same => by cases same

/-- What a handle promises its caller: its id belongs to one call of `write`, the
one with this message, and an entry that is found under the id and has an answer
holds the server's reply to that message. -/
def Own (callFun : Option CallbackFun) (body : List UInt8) (r : Int32) (s : RpcSystem) : Prop :=
  ∃ a ∈ s.asked, a.request.reqId = r ∧ a.request.body = body ∧
    (∀ other ∈ s.asked, other.request.reqId = r → other = a) ∧
    (∀ p, s.client.loop.recvMsgMap[r]? = some p → ∃ g ∈ s.client.loop.registered,
      g.reqId = r ∧ g.entry = p) ∧
    ∀ g ∈ s.client.loop.registered, g.reqId = r → (s.client.loop.entries g.entry).status = .readOk →
      ∃ (earlier later : List Asked) (reply : Reply),
        (earlier ++ a :: later).map Asked.addr <+: s.client.loop.handed.map Outgoing.addr ∧
        Reply.Answers callFun (earlier.map Asked.request) a.request reply ∧
        (s.client.loop.entries g.entry).Holds reply

private theorem own_of_reached {rpc : RpcSystem} {callFun : Option CallbackFun}
    {memory : Memory} {a : Asked} (reached : rpc.Reached layout callFun memory)
    (results : ResultsSound callFun)
    (few : rpc.asked.length < 2 ^ 32) (known : a ∈ rpc.asked) :
    Own callFun a.request.body a.request.reqId rpc := by
  obtain ⟨_, _, _, _, _, delivering⟩ := (reached.moving results few).delivering
  have requesting := delivering.answering.serving.requesting
  have only : ∀ other ∈ rpc.asked, other.request.reqId = a.request.reqId → other = a :=
    fun other member same => requesting.same_of_id few member known same
  obtain ⟨executed, first, asked, _, mapped, answered⟩ := delivering.right few
  refine ⟨a, known, rfl, rfl, only, fun p found => mapped _ p found, ?_⟩
  intro g member same status
  obtain ⟨earlier, own, later, reply, split, _, id, answers, holds⟩ := answered g member status
  have executed := asked own (by rw [split]; simp)
  cases only own executed (id.trans same)
  exact ⟨earlier, later, reply, split ▸ first, answers, holds⟩

/-- However many callers share a pool, and whichever other clients are destroyed
meanwhile: as long as the client of a handle keeps its place, the handle leads to
the client that took the caller's message, and what a `read` finds there under the
handle's id answers that message. Of two such handles no two are alike. -/
theorem owned_of_run (layout : IntLayout) (fromString : List UInt8 → Bool)
    (callFun : List UInt8 → Int32 → Option CallbackFun) (memory : Nat → Memory)
    (fits : ∀ ip port, ResultsSound (callFun ip port)) {schedule : List Event} {s : PoolSystem}
    (reached : (machine layout fromString callFun memory).run {} schedule = some s)
    (guarded : (machine layout fromString callFun memory).AllSteps LockStep {} schedule) :
    List.Forall₂ (fun h body => h.chosen.moved = false →
      ∃ c, s.calls.pool.clientAt h.handle.i = some c ∧ (c.client.rpc.asked.length < 2 ^ 32 →
        Own (callFun c.client.ip c.client.port) body h.handle.r c.client.rpc ∧
        c.client.rpc.Serviced layout (callFun c.client.ip c.client.port) (memory c.ident)))
      s.calls.handles s.messages ∧
    s.calls.handles.Pairwise fun h other => h.chosen.moved = false → other.chosen.moved = false →
      (∀ c, s.calls.pool.clientAt h.handle.i = some c → c.client.rpc.asked.length < 2 ^ 32) →
      h.handle ≠ other.handle := by
  have sound : Sound layout callFun memory s := by
    refine Machine.run_invariant (Sound layout callFun memory) LockStep
      (fun held taken guard => held.step fits taken guard) ?_ guarded reached
    exact ⟨PoolCalls.traced_new, (fun _ member => by cases member), .nil, .nil⟩
  -- The client of a handle that was not moved.
  have there : ∀ h ∈ s.calls.handles, h.chosen.moved = false →
      ∃ c, s.calls.pool.clientAt h.handle.i = some c ∧ c.ident = h.chosen.ident ∧
        c ∈ s.calls.pool.clientList := by
    intro h member still
    have shows := (sound.placed.handles h member).shows_iff.mpr still
    obtain ⟨c, found, same⟩ := Option.map_eq_some_iff.mp shows
    refine ⟨c, found, same, ?_⟩
    unfold ClientLoopPool.clientAt at found
    split at found
    · exact List.mem_of_getElem? found
    · cases found
  constructor
  · refine List.forall₂_iff_zip.mpr ⟨sound.wrote.length_eq, fun {h body} pair still => ?_⟩
    obtain ⟨c, found, same, known⟩ := there h (List.of_mem_zip pair).1 still
    refine ⟨c, found, fun few => ?_⟩
    have line := sound.lines c known
    obtain ⟨a, asked, id, rfl⟩ := List.forall₂_zip sound.wrote pair still c known same
    have own := own_of_reached line (fits _ _) few asked
    rw [id] at own
    exact ⟨own, line.serviced (fits _ _) few⟩
  · refine sound.differ.imp_of_mem ?_
    intro h other member again differ still stays few alike
    obtain ⟨c, found, same, known⟩ := there h member still
    obtain ⟨d, also, equal, _⟩ := there other again stays
    rw [← alike, found] at also
    cases also
    exact differ still stays (same.symm.trans equal) c known same (few c found)
      (congrArg ClientHandle.r alike)

instance (s : PoolSystem) (event : Event) (next : PoolSystem) : Decidable (LockStep s event next) :=
  match event with
  | .line ident event =>
    inferInstanceAs (Decidable (∀ c ∈ s.clientOf ident, ∀ after ∈ next.clientOf ident,
      RpcSystem.LockStep c.client.rpc event after.client.rpc))
  | .call event => inferInstanceAs (Decidable (s.calls.FindsClient event))

/-- One whole call of `write` with nothing between its sections. -/
def writeTo (ip : String) (byte : UInt8) : List Event :=
  [.call (.write { ip := ip.toUTF8.toList, port := 8080, sendData := [some byte], sendSize := 1 }),
    .call (.addLink 0), .call (.lock 0), .call (.probe 0), .call (.subscript 0), .call (.send 0)]

/-- Two endpoints are written to, and the second is destroyed while the request of
the first is under way. -/
def besideDestroy : List Event :=
  writeTo "10.0.0.1" 7 ++ writeTo "10.0.0.2" 8 ++
    ((RpcSystem.oneExchange.drop 1).take 8).map (.line 0) ++
    [.call (.destroy "10.0.0.2".toUTF8.toList 8080)] ++
    (RpcSystem.oneExchange.drop 9).map (.line 0)

theorem besideDestroy_owned :
    ∃ s h c, (machine .littleEndian (fun _ => true) (fun _ _ => some LinkSession.callP)
        fun _ => RpcSystem.noMemory).run {} besideDestroy = some s ∧
      (h, [7]) ∈ s.calls.handles.zip s.messages ∧ h.handle = ⟨0, 1⟩ ∧
      s.calls.pool.clientAt 0 = some c ∧
      ((c.client.rpc.client.loop.recvMsgMap[(1 : Int32)]?).map
        fun p => (c.client.rpc.client.loop.entries p).status) = some .readOk ∧
      Own (some LinkSession.callP) [7] 1 c.client.rpc := by
  have runs : ((machine .littleEndian (fun _ => true) (fun _ _ => some LinkSession.callP)
      fun _ => RpcSystem.noMemory).run {} besideDestroy).map (fun s =>
        ((s.calls.handles.zip s.messages).map fun (h, body) => (h.handle, h.chosen.moved, body),
          (s.calls.pool.clientAt 0).map fun c => (c.client.rpc.asked.length,
            (c.client.rpc.client.loop.recvMsgMap[(1 : Int32)]?).map
              fun p => (c.client.rpc.client.loop.entries p).status))) =
      some ([(⟨0, 1⟩, false, [7]), (⟨1, 1⟩, true, [8])], some (1, some .readOk)) := by
    decide +kernel
  obtain ⟨s, reached, facts⟩ := Option.map_eq_some_iff.mp runs
  simp only [Prod.mk.injEq, List.map_eq_cons_iff, Option.map_eq_some_iff] at facts
  obtain ⟨⟨⟨h, body⟩, _, pairs, ⟨handle, still, rfl⟩, _⟩, c, found, asked, status⟩ := facts
  have pair : (h, [7]) ∈ s.calls.handles.zip s.messages := by rw [pairs]; exact List.mem_cons_self
  have owned := owned_of_run .littleEndian (fun _ => true) (fun _ _ => some LinkSession.callP)
    (fun _ => RpcSystem.noMemory) (fun _ _ => RpcSystem.callP_sound) reached (by decide +kernel)
  obtain ⟨other, there, served⟩ := List.forall₂_zip owned.1 pair still
  rw [handle, found] at there
  cases there
  have own := (served (by rw [asked]; decide)).1
  rw [handle] at own
  exact ⟨s, h, c, reached, pair, handle, found, Option.map_eq_some_iff.mpr status, own⟩

end PoolSystem

end RpcLoop
