import RpcLoop.Foundation.CInt
import RpcLoop.Foundation.Machine
import RpcLoop.Pool.Pool

/-! The three records a pool keeps of its links: the vector of clients, the
counter of links and the set of link keys. Callers use the pool one after the
other. The records agree through a run exactly as long as no call removes a
client and no constructor of a client throws. -/

namespace RpcLoop

open Foundation

/-- One use of the pool, or one change its io threads make to a client. -/
inductive PoolCall (κ : Type) where
  | write (ip : List UInt8) (port : Int32) (sendData : List Cell) (sendSize : Int32)
  | destroy (ip : List UInt8) (port : Int32)
  | destroyAll (returning : Nat)
  | clientRuns (index : Int32) (client : κ)

namespace ClientLoopPool

variable {κ : Type} (ops : ClientOps κ)

def call (s : ClientLoopPool κ) : PoolCall κ → Option (ClientLoopPool κ)
  | .write ip port sendData sendSize => (s.write ops ip port sendData sendSize).map Prod.snd
  | .destroy ip port => some (s.destroy ip port)
  | .destroyAll returning => some (s.destroyAll returning)
  | .clientRuns index client => some (s.setClient index client)

def machine : Machine (ClientLoopPool κ) (PoolCall κ) where
  step := call ops

/-- The subscripts that the rounds of `get_client_index` use, in order. -/
def evaluated : Nat → ClientLoopPool κ → List Int32
  | 0, _ => []
  | rounds + 1, s =>
    s.selectIndex % s.curClientIndex ::
      match s.probe ops with
      | some (_, false, next) => evaluated rounds next
      | _ => []

/-- The records agree. -/
structure BookKept (s : ClientLoopPool κ) : Prop where
  counted : s.curClientIndex.toInt = s.clientList.length
  recorded : ∀ key, key ∈ s.linkSetPoll ↔ key ∈ s.keys
  distinct : s.keys.Nodup

/-- While `select_index` stays below 2^31, every subscript of a selection is in
the vector. -/
def SelectsInRange (s : ClientLoopPool κ) : Prop :=
  0 ≤ s.selectIndex.toInt → s.selectIndex.toInt + s.curClientIndex.toInt ≤ 2 ^ 31 →
    ∀ index ∈ s.evaluated ops s.curClientIndex.toNatClampNeg,
      0 ≤ index.toInt ∧ index.toInt < s.clientList.length

/-- What the records are kept for: the selection after each `add_link` stays in
the vector, and an endpoint without a client, destroyed or new, can be linked. -/
structure Consistent (s : ClientLoopPool κ) : Prop where
  kept : s.BookKept
  selects : ∀ ip port after, s.addLink ops ip port = (after, true) → after.SelectsInRange ops
  relinks : ∀ ip port client, linkKey ip port ∉ s.keys → s.full = false →
    ops.create ip port = some client → linkKey ip port ∈ (s.addLink ops ip port).1.keys

/-- A call that keeps the records: a new link is constructed, and nothing is removed. -/
def KeepsBook (s : ClientLoopPool κ) : PoolCall κ → ClientLoopPool κ → Prop
  | .write ip port _ _, _ =>
    s.full = false → linkKey ip port ∉ s.keys → (ops.create ip port).isSome
  | .destroy ip port, _ => linkKey ip port ∉ s.keys
  | .destroyAll returning, _ => returning = 0 ∨ s.clientList = []
  | .clientRuns _ _, _ => True

variable {ops} {s next : ClientLoopPool κ}

theorem SameBook.bookKept_iff (same : SameBook s next) : next.BookKept ↔ s.BookKept := by
  constructor
  · intro kept
    refine ⟨?_, ?_, ?_⟩
    · rw [← same.curClientIndex, ← same.length]
      exact kept.counted
    · rw [← same.linkSetPoll, ← same.keys]
      exact kept.recorded
    · rw [← same.keys]
      exact kept.distinct
  · intro kept
    refine ⟨?_, ?_, ?_⟩
    · rw [same.curClientIndex, same.length]
      exact kept.counted
    · rw [same.linkSetPoll, same.keys]
      exact kept.recorded
    · rw [same.keys]
      exact kept.distinct

/-- The records agree, and the limit is one the counter can go beyond. -/
structure Settled (s : ClientLoopPool κ) : Prop where
  kept : s.BookKept
  limited : s.clientMaxNum.toInt < 2 ^ 31 - 1

theorem Settled.linked (settled : s.Settled) (room : s.full = false) {key : Int32}
    (missing : key ∉ s.keys) (client : κ) :
    BookKept { s with
      linkSetPoll := s.linkSetPoll.insert key
      clientList := s.clientList ++ [{ ident := s.created, hashKey := key, client := client }]
      curClientIndex := s.curClientIndex + 1
      created := s.created + 1 } where
  counted := by
    have below : s.curClientIndex.toInt ≤ s.clientMaxNum.toInt := by
      simpa [full, Int32.lt_iff_toInt_lt] using room
    have limited := settled.limited
    have counted := settled.kept.counted
    rw [CInt.toInt_add _ _ (by simp only [Int32.toInt_one]; omega)
      (by simp only [Int32.toInt_one]; omega)]
    simp [counted]
  recorded := by
    intro other
    have before := settled.kept.recorded other
    simp only [keys, List.map_append, List.map_cons, List.map_nil, List.mem_append,
      List.mem_singleton, Std.TreeSet.mem_insert, Std.compare_eq_iff_eq] at before ⊢
    rw [before]
    constructor
    · rintro (same | member)
      · exact .inr same.symm
      · exact .inl member
    · rintro (member | same)
      · exact .inr member
      · exact .inl same.symm
  distinct := by
    simp only [keys, List.map_append, List.map_cons, List.map_nil]
    refine List.nodup_append.mpr ⟨settled.kept.distinct, by simp, ?_⟩
    intro other member last same equal
    rw [List.mem_singleton] at same
    exact missing (same ▸ equal ▸ member)

/-- An `add_link` that returns keeps the records; one that throws leaves the key
of a client that does not exist. -/
theorem Settled.addLink_iff (settled : s.Settled) (ip : List UInt8) (port : Int32) :
    (s.addLink ops ip port).1.BookKept ↔
      (s.full = false → linkKey ip port ∉ s.keys → (ops.create ip port).isSome) := by
  cases room : s.full with
  | true => simpa [addLink_of_full room] using settled.kept
  | false =>
    have recorded := settled.kept.recorded (linkKey ip port)
    rw [addLink_of_room room]
    rcases addLinkLocked_cases ops s ip port with ⟨linked, result⟩ |
      ⟨absent, built, result⟩ | ⟨absent, client, built, result⟩
    · simpa [result, recorded.mp linked] using settled.kept
    · have missing : linkKey ip port ∉ s.keys := fun member => absent (recorded.mpr member)
      simp only [result, missing, built]
      constructor
      · intro kept
        exact absurd ((kept.recorded (linkKey ip port)).mp (by simp)) missing
      · intro succeeds
        simp at succeeds
    · have missing : linkKey ip port ∉ s.keys := fun member => absent (recorded.mpr member)
      simp only [result, built, Option.isSome_some, implies_true, iff_true]
      exact settled.linked room missing client

private theorem evaluated_inRange (counted : s.curClientIndex.toInt = s.clientList.length)
    (positive : 0 < s.curClientIndex.toInt) (nonneg : 0 ≤ s.selectIndex.toInt) (rounds : Nat)
    (below : s.selectIndex.toInt + rounds ≤ 2 ^ 31) :
    ∀ index ∈ s.evaluated ops rounds, 0 ≤ index.toInt ∧ index.toInt < s.clientList.length := by
  induction rounds generalizing s with
  | zero => simp [evaluated]
  | succ rounds ih =>
    intro index member
    rcases List.mem_cons.mp member with same | later
    · rw [same, Int32.toInt_mod]
      refine ⟨Int.tmod_nonneg _ nonneg, ?_⟩
      rw [← counted]
      exact Int.tmod_lt_of_pos _ positive
    · split at later
      · rename_i next probed
        obtain ⟨_, advanced, same⟩ := probe_eq_some probed
        cases rounds with
        | zero => simp [evaluated] at later
        | succ rounds =>
          have moved : next.selectIndex.toInt = s.selectIndex.toInt + 1 := by
            rw [advanced, CInt.toInt_add _ _ (by simp only [Int32.toInt_one]; omega)
              (by simp only [Int32.toInt_one]; omega), Int32.toInt_one]
          rw [← same.length]
          refine ih ?_ ?_ ?_ ?_ index later
          · rw [same.curClientIndex, same.length, counted]
          · rw [same.curClientIndex]
            exact positive
          · omega
          · omega
      · simp at later

theorem BookKept.selectsInRange (kept : s.BookKept) : s.SelectsInRange ops := by
  intro nonneg below index member
  have counted := kept.counted
  have rounds : (s.curClientIndex.toNatClampNeg : Int) = s.curClientIndex.toInt := by
    rw [CInt.toNatClampNeg_eq]
    omega
  have positive : 0 < s.curClientIndex.toInt := by
    cases count : s.curClientIndex.toNatClampNeg with
    | zero => simp [count, evaluated] at member
    | succ rounds' => omega
  exact evaluated_inRange counted positive nonneg _ (by omega) index member

theorem Settled.consistent (settled : s.Settled) : s.Consistent ops where
  kept := settled.kept
  selects := by
    intro ip port after linked
    refine BookKept.selectsInRange ?_
    have same : (s.addLink ops ip port).1 = after := by rw [linked]
    rw [← same, settled.addLink_iff]
    intro room missing
    have recorded := settled.kept.recorded (linkKey ip port)
    rw [addLink_of_room room] at linked
    rcases addLinkLocked_cases ops s ip port with ⟨known, _⟩ | ⟨_, _, result⟩ |
      ⟨_, client, built, _⟩
    · exact absurd (recorded.mp known) missing
    · simp [linked] at result
    · simp [built]
  relinks := by
    intro ip port client missing room built
    have recorded := settled.kept.recorded (linkKey ip port)
    rw [addLink_of_room room]
    rcases addLinkLocked_cases ops s ip port with ⟨known, _⟩ | ⟨_, failed, _⟩ |
      ⟨_, other, _, result⟩
    · exact absurd (recorded.mp known) missing
    · simp [built] at failed
    · simp [result, keys]

/-- `destroy(ip, port)` loses the count exactly when it removes a client. -/
theorem BookKept.destroy_iff (kept : s.BookKept) (ip : List UInt8) (port : Int32) :
    (s.destroy ip port).BookKept ↔ linkKey ip port ∉ s.keys := by
  rw [← position_eq_none_iff]
  cases found : s.position (linkKey ip port) with
  | none => simpa [destroy, found] using kept
  | some index =>
    simp only [destroy, found, reduceCtorEq, iff_false]
    intro after
    have inside : index < s.clientList.length := by
      simpa using (List.findIdx?_eq_some_iff_getElem.mp found).1
    have shorter := List.length_eraseIdx_of_lt inside
    have counted := kept.counted
    have recounted := after.counted
    simp only [shorter] at recounted
    omega

/-- `destroy()` loses the count exactly when it removes a client. -/
theorem BookKept.destroyAll_iff (kept : s.BookKept) (returning : Nat) :
    (s.destroyAll returning).BookKept ↔ returning = 0 ∨ s.clientList = [] := by
  constructor
  · intro after
    have counted := kept.counted
    have recounted : s.curClientIndex.toInt = (s.clientList.drop returning).length :=
      after.counted
    rw [List.length_drop] at recounted
    rw [← List.length_eq_zero_iff]
    omega
  · intro nothing
    have same : s.destroyAll returning = s := by
      obtain rfl | empty := nothing
      · simp [destroyAll]
      · rw [destroyAll, empty, List.drop_nil, ← empty]
    rw [same]
    exact kept

variable {made : PoolCall κ}

/-- What one call does to agreeing records. -/
theorem Settled.call_iff (settled : s.Settled) (taken : s.call ops made = some next) :
    next.BookKept ↔ s.KeepsBook ops made next := by
  cases made with
  | write ip port sendData sendSize =>
    simp only [ClientLoopPool.call, Option.map_eq_some_iff] at taken
    obtain ⟨⟨handle, after⟩, written, same⟩ := taken
    cases same
    rw [(write_sameBook written).bookKept_iff]
    exact settled.addLink_iff ip port
  | destroy ip port =>
    cases taken
    exact settled.kept.destroy_iff ip port
  | destroyAll returning =>
    cases taken
    exact settled.kept.destroyAll_iff returning
  | clientRuns index client =>
    cases taken
    simpa [KeepsBook] using (setClient_sameBook s index client).bookKept_iff.mpr settled.kept

private theorem call_clientMaxNum (taken : s.call ops made = some next) :
    next.clientMaxNum = s.clientMaxNum := by
  cases made with
  | write ip port sendData sendSize =>
    simp only [ClientLoopPool.call, Option.map_eq_some_iff] at taken
    obtain ⟨⟨handle, after⟩, written, same⟩ := taken
    cases same
    rw [(write_sameBook written).clientMaxNum, addLink_clientMaxNum]
  | destroy ip port =>
    cases taken
    cases found : s.position (linkKey ip port) <;> simp [destroy, found]
  | destroyAll returning =>
    cases taken
    rfl
  | clientRuns index client =>
    cases taken
    rfl

theorem Settled.after (settled : s.Settled) (taken : s.call ops made = some next)
    (kept : next.BookKept) : next.Settled where
  kept := kept
  limited := by
    rw [call_clientMaxNum taken]
    exact settled.limited

private theorem settled_new : ({} : ClientLoopPool κ).Settled where
  kept := ⟨rfl, by simp [keys], by simp [keys]⟩
  limited := by
    change (10 : Int32).toInt < 2 ^ 31 - 1
    decide

/-- From a new pool, the records agree in every state that a sequence of calls
visits exactly when no call of it removes a client or fails to construct one. -/
theorem consistent_iff_keepsBook (ops : ClientOps κ) (calls : List (PoolCall κ)) :
    (machine ops).Always (Consistent ops) {} calls ↔
      (machine ops).AllSteps (KeepsBook ops) {} calls := by
  apply Machine.always_iff Settled
  · intro s settled
    exact settled.consistent
  · intro before call after settled taken
    rw [← settled.call_iff taken]
    constructor
    · intro consistent
      exact consistent.kept
    · intro kept
      exact (settled.after taken kept).consistent
  · intro before call after settled taken keeps
    exact settled.after taken ((settled.call_iff taken).mpr keeps)
  · exact settled_new

/-- One link is made and destroyed again. -/
def linkedOnce : List (PoolCall ClientLoop) :=
  [.write "127.0.0.1".toUTF8.toList 8080 [some 7] 1, .destroy "127.0.0.1".toUTF8.toList 8080]

/-- After the removal there is no client, and the counter is still at one. -/
theorem linkedOnce_miscounts :
    ¬ (machine (ClientLoop.poolOps .littleEndian fun _ => true)).Always
      (Consistent (ClientLoop.poolOps .littleEndian fun _ => true)) {} linkedOnce := by
  intro always
  have outcome : ((machine (ClientLoop.poolOps .littleEndian fun _ => true)).run {} linkedOnce).map
      (fun s => (s.curClientIndex.toInt, s.clientList.length)) = some (1, 0) := by
    decide +kernel
  obtain ⟨final, reached, same⟩ := Option.map_eq_some_iff.mp outcome
  obtain ⟨counter, length⟩ := Prod.mk.inj same
  have counted := (always.final reached).kept.counted
  rw [counter, length] at counted
  cases counted

end ClientLoopPool

end RpcLoop
