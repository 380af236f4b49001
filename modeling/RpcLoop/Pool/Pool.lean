import Std.Data.TreeSet.Lemmas
import RpcLoop.Client.Loop

/-! `client_loop_pool`: a vector of clients, the set of their link keys, and two
counters. The clients themselves are a parameter: the pool only creates them,
asks whether they are open, and passes requests to them. The clients of the
program are those of `client_loop`. -/

namespace RpcLoop

open Foundation

/-- What the pool needs of a client. `create` fails where the constructor throws,
the others where the program does not go on. -/
structure ClientOps (κ : Type) where
  create : List UInt8 → Int32 → Option κ
  isOpen : κ → Option (Bool × κ)
  write : κ → List Cell → Int32 → Option (Int32 × κ)
  has : κ → Int32 → Bool

/-- `pool_client_`; the identity stands for the address of the shared object. -/
structure PoolClient (κ : Type) where
  ident : Nat
  hashKey : Int32
  client : κ

/-- `clientHandle`: a position in the vector and a request id of the client there. -/
structure ClientHandle where
  i : Int32 := -1
  r : Int32 := -1
  deriving DecidableEq, Repr

structure ClientLoopPool (κ : Type) where
  clientList : List (PoolClient κ) := []
  clientMaxNum : Int32 := 10
  linkSetPoll : Std.TreeSet Int32 := ∅
  curClientIndex : Int32 := 0
  selectIndex : Int32 := 0
  created : Nat := 0

/-- `BKDR_hash`; `char` is signed and `int` wraps. -/
def bkdrHash (str : List UInt8) : Int32 :=
  str.foldl (fun hash char => hash * 131 + char.toInt8.toInt32) 0

/-- The key of an endpoint, `BKDR_hash(ip)+port`. -/
def linkKey (ip : List UInt8) (port : Int32) : Int32 := bkdrHash ip + port

namespace ClientLoopPool

variable {κ : Type} (ops : ClientOps κ)

/-- The test at the start of `add_link`, made without the lock. -/
def full (s : ClientLoopPool κ) : Bool := s.clientMaxNum < s.curClientIndex

/-- `add_link` under its lock, and whether it returned: the key is inserted
before the constructor of the client may throw. -/
def addLinkLocked (s : ClientLoopPool κ) (ip : List UInt8) (port : Int32) :
    ClientLoopPool κ × Bool :=
  let key := linkKey ip port
  if s.linkSetPoll.contains key then (s, true)
  else
    let s := { s with linkSetPoll := s.linkSetPoll.insert key }
    match ops.create ip port with
    | none => (s, false)
    | some client =>
      ({ s with
        clientList := s.clientList ++ [{ ident := s.created, hashKey := key, client := client }]
        curClientIndex := s.curClientIndex + 1
        created := s.created + 1 }, true)

/-- `add_link(ip, port)`. -/
def addLink (s : ClientLoopPool κ) (ip : List UInt8) (port : Int32) : ClientLoopPool κ × Bool :=
  if s.full then (s, true) else s.addLinkLocked ops ip port

/-- `client_list[index]`; there is no client beyond the size of the vector. -/
def clientAt (s : ClientLoopPool κ) (index : Int32) : Option (PoolClient κ) :=
  if 0 ≤ index then s.clientList[index.toNatClampNeg]? else none

/-- The state of the client at a position changes. -/
def setClient (s : ClientLoopPool κ) (index : Int32) (client : κ) : ClientLoopPool κ :=
  { s with
    clientList := s.clientList.modify index.toNatClampNeg fun c => { c with client := client } }

/-- One round of the loop in `get_client_index`: the index and whether it is open. -/
def probe (s : ClientLoopPool κ) : Option (Int32 × Bool × ClientLoopPool κ) := do
  let index := s.selectIndex % s.curClientIndex
  let s := { s with selectIndex := s.selectIndex + 1 }
  let c ← s.clientAt index
  let (answer, client) ← ops.isOpen c.client
  return (index, answer, s.setClient index client)

/-- The loop of `get_client_index` with the rounds left and the last index tried. -/
def selectLoop : Nat → Int32 → ClientLoopPool κ → Option (Int32 × ClientLoopPool κ)
  | 0, index, s => some (index, s)
  | rounds + 1, _, s => do
    let (index, answer, s) ← s.probe ops
    if answer then return (index, s) else selectLoop rounds index s

/-- `get_client_index()`. -/
def getClientIndex (s : ClientLoopPool κ) : Option (Int32 × ClientLoopPool κ) :=
  selectLoop ops s.curClientIndex.toNatClampNeg (-1) s

/-- `client_list[i]->write(sendData, sendSize)`. -/
def sendTo (s : ClientLoopPool κ) (index : Int32) (sendData : List Cell) (sendSize : Int32) :
    Option (Int32 × ClientLoopPool κ) := do
  let c ← s.clientAt index
  let (r, client) ← ops.write c.client sendData sendSize
  return (r, s.setClient index client)

/-- `write(ip, port, sendData, sendSize)`; there is no handle where `add_link` throws. -/
def write (s : ClientLoopPool κ) (ip : List UInt8) (port : Int32) (sendData : List Cell)
    (sendSize : Int32) : Option (Option ClientHandle × ClientLoopPool κ) :=
  match s.addLink ops ip port with
  | (s, false) => some (none, s)
  | (s, true) => do
    let (index, s) ← s.getClientIndex ops
    if 0 ≤ index then
      let (r, s) ← s.sendTo ops index sendData sendSize
      return (some { i := index, r := r }, s)
    else return (some { i := index }, s)

/-- The position of the client that `destroy(ip, port)` removes. -/
def position (s : ClientLoopPool κ) (key : Int32) : Option Nat :=
  s.clientList.findIdx? fun c => c.hashKey == key

/-- `destroy(ip, port)`: the client ends in a thread of its own. -/
def destroy (s : ClientLoopPool κ) (ip : List UInt8) (port : Int32) : ClientLoopPool κ :=
  match s.position (linkKey ip port) with
  | none => s
  | some index =>
    { s with
      clientList := s.clientList.eraseIdx index
      linkSetPoll := s.linkSetPoll.erase (linkKey ip port) }

/-- `destroy()`: the first client is removed until there is none. `returning` of
the calls to a client's own `destroy()` return; the next one may throw or wait for
ever, and then its client and those behind it stay. -/
def destroyAll (s : ClientLoopPool κ) (returning : Nat) : ClientLoopPool κ :=
  { s with clientList := s.clientList.drop returning }

/-- `set_c_max_num(v)`; the comparison is unsigned, so a negative `v` is accepted. -/
def setCMaxNum (s : ClientLoopPool κ) (v : Int32) : ClientLoopPool κ :=
  if v < 0 ∨ s.clientList.length < v.toNatClampNeg then { s with clientMaxNum := v } else s

/-- The hash keys of the clients in the vector. -/
def keys (s : ClientLoopPool κ) : List Int32 := s.clientList.map PoolClient.hashKey

/-- The identities of the clients in the vector. -/
def idents (s : ClientLoopPool κ) : List Nat := s.clientList.map PoolClient.ident

/-- Nothing but the clients' own states and the round-robin counter changed. -/
structure SameBook (s next : ClientLoopPool κ) : Prop where
  keys : next.keys = s.keys
  idents : next.idents = s.idents
  created : next.created = s.created
  linkSetPoll : next.linkSetPoll = s.linkSetPoll
  curClientIndex : next.curClientIndex = s.curClientIndex
  clientMaxNum : next.clientMaxNum = s.clientMaxNum

variable {ops} {s next : ClientLoopPool κ}

@[simp] theorem length_keys (s : ClientLoopPool κ) : s.keys.length = s.clientList.length :=
  List.length_map _

namespace SameBook

theorem refl (s : ClientLoopPool κ) : SameBook s s := ⟨rfl, rfl, rfl, rfl, rfl, rfl⟩

theorem trans {last : ClientLoopPool κ} (first : SameBook s next) (second : SameBook next last) :
    SameBook s last where
  keys := second.keys.trans first.keys
  idents := second.idents.trans first.idents
  created := second.created.trans first.created
  linkSetPoll := second.linkSetPoll.trans first.linkSetPoll
  curClientIndex := second.curClientIndex.trans first.curClientIndex
  clientMaxNum := second.clientMaxNum.trans first.clientMaxNum

theorem length (same : SameBook s next) : next.clientList.length = s.clientList.length := by
  rw [← length_keys next, same.keys, length_keys]

end SameBook

private theorem map_modify_of_same {α β : Type} (project : α → β) (change : α → α) (items : List α)
    (index : Nat) (same : ∀ a, project (change a) = project a) :
    (items.modify index change).map project = items.map project := by
  apply List.ext_getElem?
  intro position
  simp only [List.getElem?_map, List.getElem?_modify]
  cases items[position]? with
  | none => rfl
  | some a => by_cases here : index = position <;> simp [here, same]

/-- A client changes its own state only. -/
theorem setClient_sameBook (s : ClientLoopPool κ) (index : Int32) (client : κ) :
    SameBook s (s.setClient index client) where
  keys := map_modify_of_same _ _ s.clientList _ fun _ => rfl
  idents := map_modify_of_same _ _ s.clientList _ fun _ => rfl
  created := rfl
  linkSetPoll := rfl
  curClientIndex := rfl
  clientMaxNum := rfl

/-- What one round of the selection did. -/
theorem probe_eq_some {index : Int32} {answer : Bool}
    (probed : s.probe ops = some (index, answer, next)) :
    index = s.selectIndex % s.curClientIndex ∧
      next.selectIndex = s.selectIndex + 1 ∧ SameBook s next := by
  simp only [probe, Option.bind_eq_bind, Option.bind_eq_some_iff, Option.pure_def,
    Option.some.injEq, Prod.mk.injEq] at probed
  obtain ⟨c, _, ⟨open', client⟩, _, rfl, _, rfl⟩ := probed
  refine ⟨rfl, rfl, ?_⟩
  have advanced : SameBook s { s with selectIndex := s.selectIndex + 1 } :=
    ⟨rfl, rfl, rfl, rfl, rfl, rfl⟩
  exact advanced.trans (setClient_sameBook _ _ client)

theorem selectLoop_sameBook {rounds : Nat} {last index : Int32}
    (selected : selectLoop ops rounds last s = some (index, next)) : SameBook s next := by
  induction rounds generalizing last s with
  | zero =>
    cases selected
    exact .refl _
  | succ rounds ih =>
    simp only [selectLoop, Option.bind_eq_bind, Option.bind_eq_some_iff,
      Option.pure_def] at selected
    obtain ⟨⟨tried, answer, middle⟩, probed, rest⟩ := selected
    have same := (probe_eq_some probed).2.2
    cases answer with
    | true =>
      cases rest
      exact same
    | false => exact same.trans (ih rest)

private theorem sendTo_sameBook {index r : Int32} {sendData : List Cell} {sendSize : Int32}
    (sent : s.sendTo ops index sendData sendSize = some (r, next)) : SameBook s next := by
  simp only [sendTo, Option.bind_eq_bind, Option.bind_eq_some_iff, Option.pure_def,
    Option.some.injEq, Prod.mk.injEq] at sent
  obtain ⟨c, _, ⟨r, client⟩, _, _, rfl⟩ := sent
  exact setClient_sameBook s index client

/-- Of the records, `write` changes what its `add_link` changes. -/
theorem write_sameBook {ip : List UInt8} {port : Int32} {sendData : List Cell} {sendSize : Int32}
    {handle : Option ClientHandle}
    (written : s.write ops ip port sendData sendSize = some (handle, next)) :
    SameBook (s.addLink ops ip port).1 next := by
  unfold write at written
  split at written
  · rename_i linked same
    cases written
    rw [same]
    exact .refl _
  · rename_i linked same
    rw [same]
    simp only [Option.bind_eq_bind, Option.bind_eq_some_iff] at written
    obtain ⟨⟨index, middle⟩, selected, rest⟩ := written
    have chosen := selectLoop_sameBook selected
    split at rest
    · simp only [Option.bind_eq_some_iff, Option.pure_def, Option.some.injEq,
        Prod.mk.injEq] at rest
      obtain ⟨⟨r, sent⟩, sending, _, rfl⟩ := rest
      exact chosen.trans (sendTo_sameBook sending)
    · cases rest
      exact chosen

/-- The three ways through `add_link` under its lock. -/
theorem addLinkLocked_cases (ops : ClientOps κ) (s : ClientLoopPool κ) (ip : List UInt8)
    (port : Int32) :
    (linkKey ip port ∈ s.linkSetPoll ∧ s.addLinkLocked ops ip port = (s, true)) ∨
    (linkKey ip port ∉ s.linkSetPoll ∧ ops.create ip port = none ∧
      s.addLinkLocked ops ip port =
        ({ s with linkSetPoll := s.linkSetPoll.insert (linkKey ip port) }, false)) ∨
    (linkKey ip port ∉ s.linkSetPoll ∧ ∃ client, ops.create ip port = some client ∧
      s.addLinkLocked ops ip port = ({ s with
        linkSetPoll := s.linkSetPoll.insert (linkKey ip port)
        clientList := s.clientList ++
          [{ ident := s.created, hashKey := linkKey ip port, client := client }]
        curClientIndex := s.curClientIndex + 1
        created := s.created + 1 }, true)) := by
  by_cases linked : linkKey ip port ∈ s.linkSetPoll
  · refine .inl ⟨linked, ?_⟩
    simp [addLinkLocked, Std.TreeSet.contains_iff_mem.mpr linked]
  · have absent : s.linkSetPoll.contains (linkKey ip port) = false :=
      Bool.eq_false_iff.mpr fun found => linked (Std.TreeSet.contains_iff_mem.mp found)
    cases built : ops.create ip port with
    | none => exact .inr (.inl ⟨linked, rfl, by simp [addLinkLocked, absent, built]⟩)
    | some client =>
      exact .inr (.inr ⟨linked, client, rfl, by simp [addLinkLocked, absent, built]⟩)

theorem addLink_of_full {ip : List UInt8} {port : Int32} (full : s.full = true) :
    s.addLink ops ip port = (s, true) := by
  simp [addLink, full]

theorem addLink_of_room {ip : List UInt8} {port : Int32} (room : s.full = false) :
    s.addLink ops ip port = s.addLinkLocked ops ip port := by
  simp [addLink, room]

theorem addLink_clientMaxNum (s : ClientLoopPool κ) (ip : List UInt8) (port : Int32) :
    (s.addLink ops ip port).1.clientMaxNum = s.clientMaxNum := by
  cases full : s.full with
  | true => rw [addLink_of_full full]
  | false =>
    rw [addLink_of_room full]
    rcases addLinkLocked_cases ops s ip port with ⟨_, result⟩ | ⟨_, _, result⟩ |
      ⟨_, _, _, result⟩ <;> rw [result]

theorem position_eq_none_iff (s : ClientLoopPool κ) (key : Int32) :
    s.position key = none ↔ key ∉ s.keys := by
  simp [position, keys]

end ClientLoopPool

namespace ClientLoop

/-- A call of `write` on a client that nothing interrupts. -/
def write (layout : IntLayout) (s : ClientLoop) (msg : List Cell) (msgL : Int32) :
    Option (Int32 × ClientLoop) := do
  let caller := s.writers.length
  let built ← s.beginWrite layout msg msgL
  let queued ← built.pushMsg caller
  let inserted ← queued.insertEntry caller
  let armed ← inserted.armTimer caller
  let posted ← armed.postWrite caller
  return (s.msgIndex, posted)

/-- The clients of the pool. Which strings `address::from_string` accepts is asio's. -/
def poolOps (layout : IntLayout) (fromString : List UInt8 → Bool) : ClientOps ClientLoop where
  create ip _ := if fromString ip then some (start .on) else none
  isOpen s := s.link.isOpen.map fun (answer, link) => (answer, { s with link := link })
  write := write layout
  has s reqId := s.recvMsgMap.contains reqId

end ClientLoop

end RpcLoop
