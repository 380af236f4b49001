import RpcLoop.Foundation.Machine
import RpcLoop.Foundation.Slot
import RpcLoop.Pool.Pool

/-! The pool with several callers. A `write` takes one section at a time: the
unlocked test, `add_link` under the exclusive lock, the selection under the
shared lock, and without a lock the subscript of the vector and the write to the
client found there. A `read` subscripts the vector without a lock, looks for its
request and waits for the answer. Both hold a plain pointer to their client,
which is deleted when the thread that destroys it ends. Beside the program's state
stand the identity of each chosen client and a record of the clients that were
used. -/

namespace RpcLoop

open Foundation

/-- The arguments of a call of `write`. -/
structure WriteArgs where
  ip : List UInt8
  port : Int32
  sendData : List Cell
  sendSize : Int32

/-- What `get_client_index` returned, the client there, and whether a client at
or before it has been removed since. -/
structure Chosen where
  i : Int32
  ident : Nat
  moved : Bool
  deriving DecidableEq

/-- The chosen client as a position in the vector. -/
def Chosen.slot (c : Chosen) : Slot Nat where
  position := c.i.toNatClampNeg
  ident := c.ident
  moved := c.moved

/-- The client at a position is removed. -/
def Chosen.erased (c : Chosen) (index : Nat) : Chosen :=
  { c with moved := (c.slot.erased index).moved }

/-- A call of `write`, by the section it enters next. Behind the subscript it has
the client that stood at the position. -/
inductive PoolCaller where
  | linking (args : WriteArgs)
  | ready (args : WriteArgs)
  | selecting (args : WriteArgs) (rounds : Nat)
  | chosen (args : WriteArgs) (c : Chosen)
  | sending (args : WriteArgs) (c : Chosen) (used : Nat)

def PoolCaller.erased (caller : PoolCaller) (index : Nat) : PoolCaller :=
  match caller with
  | .chosen args c => .chosen args (c.erased index)
  | .sending args c used => .sending args (c.erased index) used
  | other => other

/-- The choice of a call that has not subscripted the vector yet. -/
def PoolCaller.choice : PoolCaller → Option Chosen
  | .chosen _ c => some c
  | _ => none

/-- The client that a call has a pointer to. -/
def PoolCaller.client : PoolCaller → Option Nat
  | .sending _ _ used => some used
  | _ => none

/-- The caller holds the shared lock. -/
def PoolCaller.locks : PoolCaller → Bool
  | .selecting _ _ => true
  | _ => false

/-- A handle that `write` returned, with the client it was chosen for. -/
structure PoolHandle where
  chosen : Chosen
  r : Int32

def PoolHandle.erased (h : PoolHandle) (index : Nat) : PoolHandle :=
  { h with chosen := h.chosen.erased index }

def PoolHandle.handle (h : PoolHandle) : ClientHandle where
  i := h.chosen.i
  r := h.r

/-- A call of `read` that has subscripted the vector, and whether it has found its
request and waits for the answer. -/
structure PoolReader where
  chosen : Chosen
  used : Nat
  r : Int32
  waits : Bool

/-- The client a handle was chosen for and the client that was used instead of
or as it; there is none where the subscript lies outside the vector, or where the
client has been deleted. -/
structure Use where
  chosen : Nat
  used : Option Nat
  deriving DecidableEq, Repr

structure PoolCalls (κ : Type) where
  pool : ClientLoopPool κ := {}
  retired : List (PoolClient κ) := []
  callers : List PoolCaller := []
  handles : List PoolHandle := []
  readers : List PoolReader := []
  uses : List Use := []

inductive PoolEvent (κ : Type) where
  | write (args : WriteArgs)
  | addLink (caller : Nat)
  | lock (caller : Nat)
  | probe (caller : Nat)
  | subscript (caller : Nat)
  | send (caller : Nat)
  | read (handle : Nat)
  | find (reader : Nat)
  | leave (reader : Nat)
  | destroy (ip : List UInt8) (port : Int32)
  | ended (ident : Nat)
  | setCMaxNum (v : Int32)
  | clientRuns (ident : Nat) (client : κ)

namespace PoolCalls

variable {κ : Type} (ops : ClientOps κ)

/-- Some selection holds the shared lock, which keeps the exclusive one from others. -/
def locked (s : PoolCalls κ) : Bool := s.callers.any PoolCaller.locks

/-- `write` begins with the unlocked test of `add_link`. -/
def begin (s : PoolCalls κ) (args : WriteArgs) : PoolCalls κ :=
  { s with callers := s.callers ++ [if s.pool.full then .ready args else .linking args] }

/-- `add_link` under the exclusive lock; where it throws, the call ends. -/
def link (s : PoolCalls κ) (caller : Nat) : Option (PoolCalls κ) :=
  match s.callers[caller]? with
  | some (.linking args) =>
    if s.locked then none
    else
      match s.pool.addLinkLocked ops args.ip args.port with
      | (pool, true) =>
        some { s with pool := pool, callers := s.callers.set caller (.ready args) }
      | (pool, false) => some { s with pool := pool, callers := s.callers.eraseIdx caller }
  | _ => none

/-- `get_client_index` takes the shared lock; without clients it returns -1. -/
def lock (s : PoolCalls κ) (caller : Nat) : Option (PoolCalls κ) :=
  match s.callers[caller]? with
  | some (.ready args) =>
    if 0 < s.pool.curClientIndex then
      some { s with
        callers := s.callers.set caller
          (.selecting args s.pool.curClientIndex.toNatClampNeg) }
    else some { s with callers := s.callers.eraseIdx caller }
  | _ => none

/-- One round of the selection, which ends at an open client or with the last round. -/
def probe (s : PoolCalls κ) (caller : Nat) : Option (PoolCalls κ) :=
  match s.callers[caller]? with
  | some (.selecting args (rounds + 1)) => do
    let (index, answer, pool) ← s.pool.probe ops
    let c ← pool.clientAt index
    let next : PoolCaller :=
      if answer ∨ rounds = 0 then
        .chosen args { i := index, ident := c.ident, moved := false }
      else .selecting args rounds
    return { s with pool := pool, callers := s.callers.set caller next }
  | _ => none

/-- A client is used for another, or as itself. -/
def use (s : PoolCalls κ) (chosen : Nat) (used : Option Nat) : PoolCalls κ :=
  { s with uses := s.uses ++ [{ chosen := chosen, used := used }] }

/-- `write` evaluates `client_list[res.i]`. -/
def subscript (s : PoolCalls κ) (caller : Nat) : Option (PoolCalls κ) :=
  match s.callers[caller]? with
  | some (.chosen args c) =>
    match s.pool.clientAt c.i with
    | none => some { s.use c.ident none with callers := s.callers.eraseIdx caller }
    | some client => some { s.use c.ident client.ident with
        callers := s.callers.set caller (.sending args c client.ident) }
  | _ => none

/-- The client with an identity, also after its removal from the vector. -/
def clientOf (s : PoolCalls κ) (ident : Nat) : Option (PoolClient κ) :=
  (s.pool.clientList ++ s.retired).find? fun c => c.ident == ident

/-- A client changes its state. -/
def clientRuns (s : PoolCalls κ) (ident : Nat) (client : κ) : PoolCalls κ :=
  let run (c : PoolClient κ) := if c.ident = ident then { c with client := client } else c
  { s with
    pool := { s.pool with clientList := s.pool.clientList.map run }
    retired := s.retired.map run }

/-- The client's `write`, after which the handle is returned. -/
def send (s : PoolCalls κ) (caller : Nat) : Option (PoolCalls κ) :=
  match s.callers[caller]? with
  | some (.sending args c used) =>
    let ended := { s with callers := s.callers.eraseIdx caller }
    match s.clientOf used with
    | none => some (ended.use c.ident none)
    | some client => do
      let (r, after) ← ops.write client.client args.sendData args.sendSize
      return { ended.clientRuns used after with
        handles := s.handles ++ [{ chosen := c, r := r }] }
  | _ => none

/-- `read(ch)` evaluates `client_list[ch.i]`. -/
def read (s : PoolCalls κ) (handle : Nat) : Option (PoolCalls κ) := do
  let h ← s.handles[handle]?
  match s.pool.clientAt h.chosen.i with
  | none => return s.use h.chosen.ident none
  | some client =>
    return { s with
      readers := s.readers ++
        [{ chosen := h.chosen, used := client.ident, r := h.r, waits := false }] }

/-- `client_loop::read` looks for the request: it fails, or waits for the answer. -/
def find (s : PoolCalls κ) (reader : Nat) : Option (PoolCalls κ) := do
  let r ← s.readers[reader]?
  if r.waits then none
  else
    let ended := { s with readers := s.readers.eraseIdx reader }
    match s.clientOf r.used with
    | none => return ended.use r.chosen.ident none
    | some c =>
      return if ops.has c.client r.r then
        { s.use r.chosen.ident r.used with
          readers := s.readers.set reader { r with waits := true } }
      else ended

/-- A read that waited returns; the last it does is to push the id into the
client's `del_reqid_list`. -/
def leave (s : PoolCalls κ) (reader : Nat) : Option (PoolCalls κ) := do
  let r ← s.readers[reader]?
  if r.waits then
    let ended := { s with readers := s.readers.eraseIdx reader }
    return if (s.clientOf r.used).isSome then ended else ended.use r.chosen.ident none
  else none

/-- `destroy(ip, port)` under the exclusive lock; the client ends in its own time. -/
def destroy (s : PoolCalls κ) (ip : List UInt8) (port : Int32) : Option (PoolCalls κ) :=
  if s.locked then none
  else
    match s.pool.position (linkKey ip port) with
    | none => some s
    | some index => some { s with
        pool := s.pool.destroy ip port
        retired := s.retired ++ s.pool.clientList[index]?.toList
        callers := s.callers.map (·.erased index)
        handles := s.handles.map (·.erased index) }

/-- The thread that destroys a client ends, and with it the last owner of the client. -/
def endClient (s : PoolCalls κ) (ident : Nat) : Option (PoolCalls κ) :=
  if s.retired.any fun c => c.ident == ident then
    some { s with retired := s.retired.filter fun c => c.ident != ident }
  else none

def step (s : PoolCalls κ) : PoolEvent κ → Option (PoolCalls κ)
  | .write args => some (s.begin args)
  | .addLink caller => s.link ops caller
  | .lock caller => s.lock caller
  | .probe caller => s.probe ops caller
  | .subscript caller => s.subscript caller
  | .send caller => s.send ops caller
  | .read handle => s.read handle
  | .find reader => s.find ops reader
  | .leave reader => s.leave reader
  | .destroy ip port => s.destroy ip port
  | .ended ident => s.endClient ident
  | .setCMaxNum v => some { s with pool := s.pool.setCMaxNum v }
  | .clientRuns ident client => some (s.clientRuns ident client)

def machine : Machine (PoolCalls κ) (PoolEvent κ) where
  step := step ops

end PoolCalls

end RpcLoop
