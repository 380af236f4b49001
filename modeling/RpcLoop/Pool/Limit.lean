import RpcLoop.Foundation.CInt
import RpcLoop.Pool.Handles

/-! The limit of the pool. `add_link` compares the counter of links with
`client_max_num` before it takes the lock, and `set_c_max_num` compares and stores
without one, so both take their accesses one at a time beside the sections of
`PoolCalls`. A call remembers what it was when it made its test: the values it
compared, and how many clients had been created and how many limits stored. -/

namespace RpcLoop

open Foundation

/-- A call of `write` that has read `cur_client_index`. -/
structure CounterRead where
  args : WriteArgs
  counter : Int32
  created : Nat

/-- A call whose counter was not above the limit, on its way to the lock. -/
structure Admitted extends CounterRead where
  limit : Int32
  stores : Nat

/-- A call of `set_c_max_num` behind its test. -/
structure Setter where
  v : Int32
  size : Nat
  created : Nat

/-- What a call read: the number of clients there were. -/
structure CounterRead.Sound (created : Nat) (t : CounterRead) : Prop where
  counter : t.counter = Int32.ofNat t.created
  before : t.created ≤ created

/-- What a call's test has shown: its counter is not above the limit. -/
structure Admitted.Sound (created : Nat) (clientMaxNum : Int32) (stores : Nat) (a : Admitted) :
    Prop extends CounterRead.Sound created a.toCounterRead where
  test : a.counter.toInt ≤ a.limit.toInt
  earlier : a.stores ≤ stores
  limit : a.stores = stores → a.limit = clientMaxNum

/-- What the test of `set_c_max_num` has shown: a limit above the size, or a negative one. -/
structure Setter.Sound (created : Nat) (t : Setter) : Prop where
  size : t.size = t.created
  before : t.created ≤ created
  test : 0 ≤ t.v.toInt → (t.size : Int) < t.v.toInt

structure LimitedPool (κ : Type) where
  calls : PoolCalls κ := {}
  tests : List CounterRead := []
  admitted : List Admitted := []
  setters : List Setter := []
  stores : Nat := 0

/-- `write` reads the counter, then the limit, and then enters `add_link`'s section;
`set_c_max_num` tests and then stores. The other sections are those of `PoolCalls`. -/
inductive LimitEvent (κ : Type) where
  | write (args : WriteArgs)
  | compare (test : Nat)
  | addLink (call : Nat)
  | setCMaxNum (v : Int32)
  | store (setter : Nat)
  | goOn (event : PoolEvent κ)

namespace LimitedPool

variable {κ : Type} (ops : ClientOps κ)

/-- `add_link` has read `cur_client_index`. -/
def write (s : LimitedPool κ) (args : WriteArgs) : LimitedPool κ :=
  { s with tests := s.tests ++
    [{ args := args, counter := s.calls.pool.curClientIndex, created := s.calls.pool.created }] }

/-- `if(cur_client_index > client_max_num)` with the counter as it was read. -/
def compare (s : LimitedPool κ) (test : Nat) : Option (LimitedPool κ) := do
  let t ← s.tests[test]?
  let s := { s with tests := s.tests.eraseIdx test }
  return if s.calls.pool.clientMaxNum < t.counter then
    { s with calls := { s.calls with callers := s.calls.callers ++ [.ready t.args] } }
  else
    { s with admitted := s.admitted ++
      [{ t with limit := s.calls.pool.clientMaxNum, stores := s.stores }] }

/-- `add_link` under the exclusive lock. -/
def addLink (s : LimitedPool κ) (call : Nat) : Option (LimitedPool κ) := do
  let a ← s.admitted[call]?
  let waiting : PoolCalls κ := { s.calls with callers := s.calls.callers ++ [.linking a.args] }
  let calls ← waiting.link ops s.calls.callers.length
  return { s with calls := calls, admitted := s.admitted.eraseIdx call }

/-- `if(client_list.size()<v)`; the comparison is unsigned. -/
def setCMaxNum (s : LimitedPool κ) (v : Int32) : LimitedPool κ :=
  if v < 0 ∨ s.calls.pool.clientList.length < v.toNatClampNeg then
    { s with setters := s.setters ++
      [{ v := v, size := s.calls.pool.clientList.length, created := s.calls.pool.created }] }
  else s

/-- `client_max_num=v`. -/
def store (s : LimitedPool κ) (setter : Nat) : Option (LimitedPool κ) := do
  let t ← s.setters[setter]?
  return { s with
    calls := { s.calls with pool := { s.calls.pool with clientMaxNum := t.v } }
    setters := s.setters.eraseIdx setter
    stores := s.stores + 1 }

/-- Calls of `write` and of `set_c_max_num` only. -/
def step (s : LimitedPool κ) : LimitEvent κ → Option (LimitedPool κ)
  | .write args => some (s.write args)
  | .compare test => s.compare test
  | .addLink call => s.addLink ops call
  | .setCMaxNum v => some (s.setCMaxNum v)
  | .store setter => s.store setter
  | .goOn (.write _) | .goOn (.addLink _) | .goOn (.setCMaxNum _) => none
  | .goOn (.destroy _ _) | .goOn (.ended _) => none
  | .goOn event => (s.calls.step ops event).map fun calls => { s with calls := calls }

def machine : Machine (LimitedPool κ) (LimitEvent κ) where
  step := step ops

/-- `client_list.size() <= client_max_num`. -/
def WithinLimit (s : LimitedPool κ) : Prop :=
  (s.calls.pool.clientList.length : Int) ≤ s.calls.pool.clientMaxNum.toInt

instance (s : LimitedPool κ) : Decidable s.WithinLimit := inferInstanceAs (Decidable (_ ≤ _))

/-- The call adds a client, if it gets the lock now. -/
def Adds (s : LimitedPool κ) (a : Admitted) : Prop :=
  linkKey a.args.ip a.args.port ∉ s.calls.pool.linkSetPoll ∧
    (ops.create a.args.ip a.args.port).isSome = true

/-- No client has been added and no limit stored between a call's test and now. -/
def Undisturbed (s : LimitedPool κ) (a : Admitted) : Prop :=
  s.calls.pool.created = a.created ∧ s.stores = a.stores

/-- A call that adds a client: undisturbed, its test must not have met a counter
equal to the limit; otherwise there must be room for the clients added since. A
limit that is stored: undisturbed, it must not be negative; otherwise it must leave
room for the clients added since. -/
def KeepsLimit (s : LimitedPool κ) : LimitEvent κ → LimitedPool κ → Prop
  | .addLink call, _ => ∀ a, s.admitted[call]? = some a → s.Adds ops a →
    (s.Undisturbed a → a.counter ≠ a.limit) ∧
    (¬ s.Undisturbed a →
      a.counter.toInt + (s.calls.pool.created - a.created : Nat) <
        s.calls.pool.clientMaxNum.toInt)
  | .store setter, _ => ∀ t, s.setters[setter]? = some t →
    (s.calls.pool.created = t.created → 0 ≤ t.v) ∧
    (s.calls.pool.created ≠ t.created →
      (t.size + (s.calls.pool.created - t.created) : Nat) ≤ t.v.toInt)
  | _, _ => True

/-- What such runs keep: the size and the counter count the clients created, and
calls remember what they tested. -/
structure Counting (s : LimitedPool κ) : Prop where
  within : s.WithinLimit
  clients : s.calls.pool.clientList.length = s.calls.pool.created
  counter : s.calls.pool.curClientIndex = Int32.ofNat s.calls.pool.created
  tests : ∀ t ∈ s.tests, t.Sound s.calls.pool.created
  admitted : ∀ a ∈ s.admitted, a.Sound s.calls.pool.created s.calls.pool.clientMaxNum s.stores
  setters : ∀ t ∈ s.setters, t.Sound s.calls.pool.created

variable {ops} {s next : LimitedPool κ} {event : LimitEvent κ} {calls after : PoolCalls κ}

/-- The books of a pool to which nothing is added. -/
structure SameCount (calls after : PoolCalls κ) : Prop where
  clients : after.pool.clientList.length = calls.pool.clientList.length
  created : after.pool.created = calls.pool.created
  counter : after.pool.curClientIndex = calls.pool.curClientIndex
  limit : after.pool.clientMaxNum = calls.pool.clientMaxNum

private theorem SameCount.of_sameBook (same : ClientLoopPool.SameBook calls.pool after.pool) :
    SameCount calls after where
  clients := same.length
  created := same.created
  counter := same.curClientIndex
  limit := same.clientMaxNum

private theorem SameCount.of_pool (same : after.pool = calls.pool) : SameCount calls after :=
  .of_sameBook (same ▸ .refl _)

private theorem sameCount_clientRuns (calls : PoolCalls κ) (ident : Nat) (client : κ) :
    SameCount calls (calls.clientRuns ident client) where
  clients := List.length_map _
  created := rfl
  counter := rfl
  limit := rfl

private theorem sameCount_step {event : PoolEvent κ} (taken : calls.step ops event = some after)
    (apart : ∀ caller, event ≠ .addLink caller) (keeps : ∀ ip port, event ≠ .destroy ip port)
    (sets : ∀ v, event ≠ .setCMaxNum v) : SameCount calls after := by
  cases event with
  | write args =>
    cases taken
    exact .of_pool rfl
  | addLink caller => exact absurd rfl (apart caller)
  | lock caller =>
    simp only [PoolCalls.step, PoolCalls.lock] at taken
    split at taken
    · split at taken <;> cases taken <;> exact .of_pool rfl
    · cases taken
  | probe caller =>
    simp only [PoolCalls.step, PoolCalls.probe] at taken
    split at taken
    · simp only [Option.bind_eq_bind, Option.bind_eq_some_iff, Option.pure_def,
        Option.some.injEq] at taken
      obtain ⟨⟨index, answer, pool⟩, probed, client, _, rfl⟩ := taken
      exact .of_sameBook (ClientLoopPool.probe_eq_some probed).2.2
    · cases taken
  | subscript caller =>
    obtain ⟨_, _, _, ⟨_, rfl⟩ | ⟨_, _, rfl⟩⟩ := PoolCalls.subscript_cases taken <;>
      exact .of_pool rfl
  | send caller =>
    obtain ⟨_, _, used, _, ⟨_, rfl⟩ | ⟨_, _, client, _, _, rfl⟩⟩ := PoolCalls.send_cases taken
    · exact .of_pool rfl
    · exact ⟨List.length_map _, rfl, rfl, rfl⟩
  | read handle =>
    obtain ⟨_, _, ⟨_, rfl⟩ | ⟨_, _, rfl⟩⟩ := PoolCalls.read_cases taken <;> exact .of_pool rfl
  | find reader =>
    obtain ⟨_, _, ⟨_, rfl⟩ | ⟨_, _, ⟨_, rfl⟩ | ⟨_, rfl⟩⟩⟩ := PoolCalls.find_cases taken <;>
      exact .of_pool rfl
  | leave reader =>
    obtain ⟨_, _, ⟨_, rfl⟩ | ⟨_, rfl⟩⟩ := PoolCalls.leave_cases taken <;> exact .of_pool rfl
  | destroy ip port => exact absurd rfl (keeps ip port)
  | ended ident =>
    simp only [PoolCalls.step, PoolCalls.endClient] at taken
    split at taken <;> cases taken
    exact .of_pool rfl
  | setCMaxNum v => exact absurd rfl (sets v)
  | clientRuns ident client =>
    cases taken
    exact sameCount_clientRuns calls ident client

private theorem Counting.same (counting : s.Counting) (same : SameCount s.calls after) :
    Counting { s with calls := after } where
  within := by
    have within := counting.within
    simp only [WithinLimit] at within ⊢
    rw [same.clients, same.limit]
    exact within
  clients := by rw [same.clients, same.created, counting.clients]
  counter := by rw [same.counter, same.created, counting.counter]
  tests t member := by
    obtain ⟨counter, before⟩ := counting.tests t member
    exact ⟨counter, same.created ▸ before⟩
  admitted a member := by
    obtain ⟨⟨counter, before⟩, test, stores, limit⟩ := counting.admitted a member
    exact ⟨⟨counter, same.created ▸ before⟩, test, stores,
      fun now => (limit now).trans same.limit.symm⟩
  setters t member := by
    obtain ⟨size, before, test⟩ := counting.setters t member
    exact ⟨size, same.created ▸ before, test⟩

private theorem Counting.toInt_ofNat (counting : s.Counting) {count : Nat}
    (before : count ≤ s.calls.pool.created) : (Int32.ofNat count).toInt = count := by
  have within := counting.within
  have limit := s.calls.pool.clientMaxNum.toInt_lt
  unfold WithinLimit at within
  rw [counting.clients] at within
  exact Int32.toInt_ofNat_of_lt (by omega)

private theorem Counting.write (counting : s.Counting) (args : WriteArgs) :
    (s.write args).Counting := by
  refine ⟨counting.within, counting.clients, counting.counter, fun t member => ?_,
    counting.admitted, counting.setters⟩
  rcases List.mem_append.mp member with old | new
  · exact counting.tests t old
  · rw [List.mem_singleton.mp new]
    exact ⟨counting.counter, Nat.le_refl _⟩

private theorem Counting.compare (counting : s.Counting) {test : Nat}
    (taken : s.compare test = some next) : next.Counting := by
  simp only [LimitedPool.compare, Option.bind_eq_bind, Option.bind_eq_some_iff, Option.pure_def,
    Option.some.injEq] at taken
  obtain ⟨t, found, rfl⟩ := taken
  have tests : ∀ other ∈ s.tests.eraseIdx test, other.Sound s.calls.pool.created :=
    fun other member => counting.tests other (List.mem_of_mem_eraseIdx member)
  split
  · exact ⟨counting.within, counting.clients, counting.counter, tests, counting.admitted,
      counting.setters⟩
  · rename_i room
    refine ⟨counting.within, counting.clients, counting.counter, tests, fun a member => ?_,
      counting.setters⟩
    rcases List.mem_append.mp member with old | new
    · exact counting.admitted a old
    · rw [List.mem_singleton.mp new]
      refine ⟨counting.tests t (List.mem_of_getElem? found), ?_, Nat.le_refl _, fun _ => rfl⟩
      rw [Int32.lt_iff_toInt_lt] at room
      exact Int.not_lt.mp room

private theorem Counting.setCMaxNum (counting : s.Counting) (v : Int32) :
    (s.setCMaxNum v).Counting := by
  unfold LimitedPool.setCMaxNum
  split
  · rename_i accepted
    refine ⟨counting.within, counting.clients, counting.counter, counting.tests, counting.admitted,
      fun t member => ?_⟩
    rcases List.mem_append.mp member with old | new
    · exact counting.setters t old
    · rw [List.mem_singleton.mp new]
      refine ⟨counting.clients, Nat.le_refl _, fun nonneg => ?_⟩
      rw [Int32.lt_iff_toInt_lt, CInt.toNatClampNeg_eq] at accepted
      simp only [Int32.toInt_zero] at accepted nonneg ⊢
      omega
  · exact counting

private theorem addLink_cases {call : Nat} (taken : s.addLink ops call = some next) :
    ∃ a, s.admitted[call]? = some a ∧ next.admitted = s.admitted.eraseIdx call ∧
      next.tests = s.tests ∧ next.setters = s.setters ∧ next.stores = s.stores ∧
      (¬ s.Adds ops a ∧ SameCount s.calls next.calls ∨
      s.Adds ops a ∧
        next.calls.pool.clientList.length = s.calls.pool.clientList.length + 1 ∧
        next.calls.pool.created = s.calls.pool.created + 1 ∧
        next.calls.pool.curClientIndex = s.calls.pool.curClientIndex + 1 ∧
        next.calls.pool.clientMaxNum = s.calls.pool.clientMaxNum) := by
  simp only [LimitedPool.addLink, Option.bind_eq_bind, Option.bind_eq_some_iff, Option.pure_def,
    Option.some.injEq] at taken
  obtain ⟨a, found, calls, linked, rfl⟩ := taken
  refine ⟨a, found, rfl, rfl, rfl, rfl, ?_⟩
  simp only [PoolCalls.link, List.getElem?_concat_length] at linked
  split at linked
  · cases linked
  · rcases ClientLoopPool.addLinkLocked_cases ops s.calls.pool a.args.ip a.args.port with
      ⟨linked', result⟩ | ⟨absent, failed, result⟩ | ⟨absent, client, built, result⟩
    · rw [result] at linked
      cases linked
      exact .inl ⟨fun adds => adds.1 linked', .of_pool rfl⟩
    · rw [result] at linked
      cases linked
      refine .inl ⟨fun adds => ?_, ⟨rfl, rfl, rfl, rfl⟩⟩
      have built := adds.2
      rw [failed] at built
      cases built
    · rw [result] at linked
      cases linked
      exact .inr ⟨⟨absent, by rw [built]; rfl⟩, by simp, rfl, rfl, rfl⟩

private theorem Counting.room_iff (counting : s.Counting) {a : Admitted}
    (sound : a.Sound s.calls.pool.created s.calls.pool.clientMaxNum s.stores) :
    (s.calls.pool.clientList.length + 1 : Int) ≤ s.calls.pool.clientMaxNum.toInt ↔
      (s.Undisturbed a → a.counter ≠ a.limit) ∧
      (¬ s.Undisturbed a → a.counter.toInt + (s.calls.pool.created - a.created : Nat) <
        s.calls.pool.clientMaxNum.toInt) := by
  have counter : a.counter.toInt = a.created := by
    rw [sound.counter]
    exact counting.toInt_ofNat sound.before
  have clients := counting.clients
  have before := sound.before
  by_cases calm : s.Undisturbed a
  · have test := sound.test
    have limit := sound.limit calm.2.symm
    have same : a.counter = a.limit ↔ a.counter.toInt = a.limit.toInt := Int32.toInt_inj.symm
    simp only [calm, true_implies, not_true_eq_false, false_implies, and_true, ne_eq, same]
    rw [← limit, counter]
    have created := calm.1
    omega
  · simp only [calm, false_implies, not_false_eq_true, true_implies, true_and]
    omega

private theorem Counting.addLink_iff (counting : s.Counting) {call : Nat}
    (taken : s.addLink ops call = some next) :
    next.WithinLimit ↔ s.KeepsLimit ops (.addLink call) next := by
  obtain ⟨a, found, _, _, _, _, ⟨idle, same⟩ | ⟨adds, clients, _, _, limit⟩⟩ := addLink_cases taken
  · refine iff_of_true ?_ ?_
    · have within := counting.within
      simp only [WithinLimit] at within ⊢
      rw [same.clients, same.limit]
      exact within
    · intro other known adds
      cases found.symm.trans known
      exact absurd adds idle
  · have room := counting.room_iff (counting.admitted a (List.mem_of_getElem? found))
    have within : next.WithinLimit ↔
        (s.calls.pool.clientList.length + 1 : Int) ≤ s.calls.pool.clientMaxNum.toInt := by
      rw [WithinLimit, clients, limit]
      rfl
    rw [within, room]
    constructor
    · intro fits other known _
      cases found.symm.trans known
      exact fits
    · intro keeps
      exact keeps a found adds

private theorem Counting.addLink (counting : s.Counting) {call : Nat}
    (taken : s.addLink ops call = some next) (within : next.WithinLimit) : next.Counting := by
  obtain ⟨a, found, admitted, tests, setters, stores,
    ⟨_, same⟩ | ⟨_, clients, created, counter, limit⟩⟩ := addLink_cases taken
  · have kept := counting.same same
    refine ⟨kept.within, kept.clients, kept.counter, ?_, fun other member => ?_, ?_⟩
    · rw [tests]
      exact kept.tests
    · rw [admitted] at member
      obtain ⟨read, test, before, limit⟩ := kept.admitted other (List.mem_of_mem_eraseIdx member)
      exact ⟨read, test, stores ▸ before, fun now => limit (now.trans stores)⟩
    · rw [setters]
      exact kept.setters
  · have later : ∀ {count : Nat}, count ≤ s.calls.pool.created →
        count ≤ next.calls.pool.created := fun before => created ▸ Nat.le_succ_of_le before
    refine ⟨within, ?_, ?_, fun t member => ?_, fun other member => ?_, fun t member => ?_⟩
    · rw [clients, created, counting.clients]
    · rw [counter, created, counting.counter, Int32.ofNat_add]
      rfl
    · rw [tests] at member
      obtain ⟨read, before⟩ := counting.tests t member
      exact ⟨read, later before⟩
    · rw [admitted] at member
      obtain ⟨⟨read, before⟩, test, stored, known⟩ :=
        counting.admitted other (List.mem_of_mem_eraseIdx member)
      exact ⟨⟨read, later before⟩, test, stores ▸ stored,
        fun now => (known (now.trans stores)).trans limit.symm⟩
    · rw [setters] at member
      obtain ⟨size, before, test⟩ := counting.setters t member
      exact ⟨size, later before, test⟩

private theorem Counting.store_iff (counting : s.Counting) {setter : Nat}
    (taken : s.store setter = some next) :
    next.WithinLimit ↔ s.KeepsLimit ops (.store setter) next := by
  simp only [LimitedPool.store, Option.bind_eq_bind, Option.bind_eq_some_iff, Option.pure_def,
    Option.some.injEq] at taken
  obtain ⟨t, found, rfl⟩ := taken
  have sound := counting.setters t (List.mem_of_getElem? found)
  have clients := counting.clients
  have size := sound.size
  have before := sound.before
  have test := sound.test
  have fits : (s.calls.pool.clientList.length : Int) ≤ t.v.toInt ↔
      (s.calls.pool.created = t.created → 0 ≤ t.v) ∧
      (s.calls.pool.created ≠ t.created →
        (t.size + (s.calls.pool.created - t.created) : Nat) ≤ t.v.toInt) := by
    rw [CInt.nonneg_iff]
    omega
  refine fits.trans ⟨fun keeps other known => ?_, fun keeps => keeps t found⟩
  cases found.symm.trans known
  exact keeps

private theorem Counting.store (counting : s.Counting) {setter : Nat}
    (taken : s.store setter = some next) (within : next.WithinLimit) : next.Counting := by
  simp only [LimitedPool.store, Option.bind_eq_bind, Option.bind_eq_some_iff, Option.pure_def,
    Option.some.injEq] at taken
  obtain ⟨t, found, rfl⟩ := taken
  refine ⟨within, counting.clients, counting.counter, counting.tests, fun a member => ?_,
    fun other member => counting.setters other (List.mem_of_mem_eraseIdx member)⟩
  obtain ⟨read, test, before, _⟩ := counting.admitted a member
  refine ⟨read, test, Nat.le_succ_of_le before, fun now => ?_⟩
  exact absurd now (Nat.ne_of_lt (Nat.lt_succ_of_le before))

private theorem Counting.step_iff (counting : s.Counting) (taken : s.step ops event = some next) :
    (next.WithinLimit ↔ s.KeepsLimit ops event next) ∧ (next.WithinLimit → next.Counting) := by
  have trivially : ∀ {after : LimitedPool κ}, after.Counting →
      (after.WithinLimit ↔ True) ∧ (after.WithinLimit → after.Counting) :=
    fun counting => ⟨iff_of_true counting.within trivial, fun _ => counting⟩
  have other : ∀ {event : PoolEvent κ}, (∀ caller, event ≠ .addLink caller) →
      (∀ ip port, event ≠ .destroy ip port) → (∀ v, event ≠ .setCMaxNum v) →
      (s.calls.step ops event).map (fun calls => { s with calls := calls }) = some next →
      (next.WithinLimit ↔ True) ∧ (next.WithinLimit → next.Counting) := by
    intro event apart keeps sets taken
    obtain ⟨after, stepped, rfl⟩ := Option.map_eq_some_iff.mp taken
    exact trivially (counting.same (sameCount_step stepped apart keeps sets))
  cases event with
  | write args =>
    cases taken
    exact trivially (counting.write args)
  | compare test => exact trivially (counting.compare taken)
  | addLink call => exact ⟨counting.addLink_iff taken, counting.addLink taken⟩
  | setCMaxNum v =>
    cases taken
    exact trivially (counting.setCMaxNum v)
  | store setter => exact ⟨counting.store_iff taken, counting.store taken⟩
  | goOn event =>
    cases event with
    | write | addLink | destroy | ended | setCMaxNum => cases taken
    | clientRuns ident client =>
      cases taken
      exact trivially (counting.same (sameCount_clientRuns _ ident client))
    | _ => exact other (by simp) (by simp) (by simp) taken

private theorem counting_new : ({} : LimitedPool κ).Counting where
  within := by
    change ((0 : Nat) : Int) ≤ (10 : Int32).toInt
    decide
  clients := rfl
  counter := rfl
  tests _ member := by cases member
  admitted _ member := by cases member
  setters _ member := by cases member

/-- From a new pool, the limit is respected in every state that an interleaving of
calls visits exactly when every step of it keeps the limit. -/
theorem withinLimit_iff_keepsLimit (ops : ClientOps κ) (events : List (LimitEvent κ)) :
    (machine ops).Always WithinLimit {} events ↔
      (machine ops).AllSteps (KeepsLimit ops) {} events := by
  apply Machine.always_iff Counting
  · exact fun counting => counting.within
  · exact fun counting taken => (counting.step_iff taken).1
  · exact fun counting taken keeps =>
      (counting.step_iff taken).2 ((counting.step_iff taken).1.mpr keeps)
  · exact counting_new

/-- The limit is set to one, and then two endpoints are written to. -/
def oneTooMany : List (LimitEvent ClientLoop) :=
  [.setCMaxNum 1, .store 0,
    .write { ip := "10.0.0.1".toUTF8.toList, port := 80, sendData := [some 7], sendSize := 1 },
    .compare 0, .addLink 0, .goOn (.lock 0), .goOn (.probe 0), .goOn (.subscript 0),
    .goOn (.send 0),
    .write { ip := "10.0.0.2".toUTF8.toList, port := 80, sendData := [some 7], sendSize := 1 },
    .compare 0, .addLink 0]

/-- The second call finds one link and a limit of one, and adds another. -/
theorem oneTooMany_exceeds :
    ¬ (machine (ClientLoop.poolOps .littleEndian fun _ => true)).Always WithinLimit {}
      oneTooMany := by
  decide +kernel

/-! A call that nothing interrupts is that of `PoolCalls`. -/

theorem begin_run (s : LimitedPool κ) (args : WriteArgs) (full : s.calls.pool.full = true) :
    (machine ops).run s [.write args, .compare s.tests.length] =
      some { s with calls := s.calls.begin args } := by
  have above : s.calls.pool.clientMaxNum < s.calls.pool.curClientIndex := by
    simpa [ClientLoopPool.full] using full
  simp [Machine.run, machine, step, write, compare, PoolCalls.begin, full, above,
    List.eraseIdx_append_of_length_le]

theorem link_run (s : LimitedPool κ) (args : WriteArgs) (room : s.calls.pool.full = false)
    (linked : (s.calls.begin args).link ops s.calls.callers.length = some calls) :
    (machine ops).run s [.write args, .compare s.tests.length, .addLink s.admitted.length] =
      some { s with calls := calls } := by
  have below : ¬ s.calls.pool.clientMaxNum < s.calls.pool.curClientIndex := by
    simpa [ClientLoopPool.full] using room
  simp only [PoolCalls.begin, room, Bool.false_eq_true, if_false] at linked
  simp [Machine.run, machine, step, write, compare, addLink, below, linked,
    List.eraseIdx_append_of_length_le]

theorem setCMaxNum_run (s : LimitedPool κ) (v : Int32)
    (accepted : v < 0 ∨ s.calls.pool.clientList.length < v.toNatClampNeg) :
    (machine ops).run s [.setCMaxNum v, .store s.setters.length] =
      some { s with
        calls := { s.calls with pool := s.calls.pool.setCMaxNum v }
        stores := s.stores + 1 } := by
  simp [Machine.run, machine, step, setCMaxNum, store, accepted, ClientLoopPool.setCMaxNum,
    List.eraseIdx_append_of_length_le]

end LimitedPool

end RpcLoop
