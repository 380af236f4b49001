import Mathlib.Data.List.Nodup
import RpcLoop.Client.LateTimeout
import RpcLoop.Client.Modes
import RpcLoop.Client.Reclaim

/-! Only collected requests are erased. While fewer than 2^32 messages have been
written every id names one registration, so the header of an entry, the
deletion list, the marks and the calls of `read` agree about it. -/

namespace RpcLoop

open Foundation Asio Shared

/-- The id a call of `write` has taken and not registered yet. -/
def WriteCall.unregistered : WriteCall → Option Int32
  | .built m => some m.reqId
  | .queued m => some m.reqId
  | _ => none

def ReadCall.entry : ReadCall → Ptr
  | .waiting p => p
  | .marked p => p

namespace ClientLoop

/-- How many messages an event begins to write. -/
def Event.writes : Event → Nat
  | .beginWrite _ _ => 1
  | _ => 0

/-- The ids of all requests, registered or not. -/
def issued (s : ClientLoop) : List Int32 :=
  s.registered.map Registration.reqId ++ s.writers.filterMap WriteCall.unregistered

/-- After some number of writes their ids are the first ones, each used once. -/
structure IdsApart (count : Nat) (s : ClientLoop) : Prop where
  index : s.msgIndex = Int32.ofNat (count + 1)
  taken : ∀ id ∈ s.issued, ∃ number, 1 ≤ number ∧ number ≤ count ∧ id = Int32.ofNat number
  once : ∀ id, s.issued.count id ≤ 1

/-- What the registrations, the map, the deletion list and the calls of `read`
say about an entry. -/
structure Catalogued (s : ClientLoop) : Prop where
  known : ∀ r ∈ s.registered, r.entry < s.allocated
  apart : ∀ r ∈ s.registered, ∀ other ∈ s.registered, r.entry = other.entry → r = other
  mapped : ∀ (id : Int32) (p : Ptr), s.recvMsgMap[id]? = some p →
    ∃ r ∈ s.registered, r.reqId = id ∧ r.entry = p
  heads : ∀ r ∈ s.registered, (s.entries r.entry).headInfo.reqId = r.reqId
  readers : ∀ call ∈ s.readers, ∃ r ∈ s.registered, r.entry = call.entry
  marked : ∀ p, .marked p ∈ s.readers → p ∈ s.collected
  flagged : ∀ p ∈ s.collected, p < s.allocated ∧ (s.entries p).Marked
  listed : ∀ id ∈ s.delReqidList.items, ∃ r ∈ s.registered, r.reqId = id ∧ r.entry ∈ s.collected

variable {layout : IntLayout} {s next : ClientLoop} {event : Event} {count : Nat}

private theorem writes_sum (schedule : List Event) :
    (schedule.map Event.writes).sum = (writeCalls schedule).length := by
  induction schedule with
  | nil => rfl
  | cons event rest ih =>
    rw [List.map_cons, List.sum_cons, ih, writeCalls, writeCalls, List.filterMap_cons]
    cases event with
    | beginWrite msg msgL => simp [Event.writes, Nat.add_comm]
    | _ => simp [Event.writes]

/-! ### Ids -/

theorem ofNat_ne {first second : Nat} (less : first < second) (near : second - first < 2 ^ 32) :
    Int32.ofNat first ≠ Int32.ofNat second := by
  intro same
  have bits := congrArg (fun id : Int32 => id.toBitVec.toNat) same
  simp only [Int32.toBitVec_ofNat', BitVec.toNat_ofNat] at bits
  omega

theorem IdsApart.initial (csq : ClientSendQueue) : IdsApart 0 (start csq) where
  index := rfl
  taken _ member := by cases member
  once _ := Nat.zero_le _

theorem IdsApart.keep (ids : IdsApart count s) (index : next.msgIndex = s.msgIndex)
    (fewer : ∀ id, next.issued.count id ≤ s.issued.count id) : IdsApart count next where
  index := index.trans ids.index
  taken id member := by
    apply ids.taken id
    exact List.count_pos_iff.mp (Nat.lt_of_lt_of_le (List.count_pos_iff.mpr member) (fewer id))
  once id := Nat.le_trans (fewer id) (ids.once id)

private theorem unregistered_set {caller : Nat} {w : WriteCall}
    (stage : s.writers[caller]? = some w)
    (v : WriteCall) (id : Int32) :
    ((s.writers.set caller v).filterMap WriteCall.unregistered).count id +
        w.unregistered.toList.count id =
      (s.writers.filterMap WriteCall.unregistered).count id + v.unregistered.toList.count id := by
  obtain ⟨first, last, split, replaced⟩ := split_of_set stage
  rw [replaced v, split]
  have cons : ∀ u : WriteCall, ((u :: last).filterMap WriteCall.unregistered).count id =
      u.unregistered.toList.count id + (last.filterMap WriteCall.unregistered).count id := by
    intro u
    cases held : u.unregistered with
    | none => simp [held]
    | some other => simp [held, List.count_cons, Nat.add_comm]
  rw [List.filterMap_append, List.filterMap_append, List.count_append, List.count_append, cons,
    cons]
  omega

theorem IdsApart.step (ids : IdsApart count s) (transition : Transition layout s event next)
    (few : count + event.writes < 2 ^ 32) : IdsApart (count + event.writes) next := by
  cases transition with
  | begun msg msgL res built =>
    have id : Outgoing.reqId { addr := s.allocated, obj := res } = Int32.ofNat (count + 1) := by
      rw [Outgoing.reqId, requestMsg_head built, ids.index]
      rfl
    have fresh : Int32.ofNat (count + 1) ∉ s.issued := by
      intro member
      obtain ⟨number, first, last, same⟩ := ids.taken _ member
      simp only [Event.writes] at few
      exact ofNat_ne (Nat.lt_succ_of_le last) (by omega) same.symm
    refine ⟨?_, ?_, ?_⟩
    · simp only [ids.index, Event.writes, Int32.ofNat_add]
      rfl
    · intro other member
      simp only [issued, List.filterMap_append, ← List.append_assoc] at member
      rcases List.mem_append.mp member with old | new
      · obtain ⟨number, first, last, same⟩ := ids.taken other old
        exact ⟨number, first, Nat.le_succ_of_le last, same⟩
      · simp only [List.filterMap_cons, WriteCall.unregistered, List.filterMap_nil,
          List.mem_singleton] at new
        exact ⟨count + 1, Nat.succ_pos _, Nat.le_refl _, new.trans id⟩
    · intro other
      have before := ids.once other
      have none := List.count_eq_zero.mpr fresh
      simp only [issued, List.filterMap_append, List.filterMap_cons, WriteCall.unregistered,
        List.filterMap_nil, id, List.count_append, List.count_cons, List.count_nil,
        Nat.zero_add] at before none ⊢
      by_cases equal : other = Int32.ofNat (count + 1)
      · subst equal
        simp only [beq_self_eq_true, if_true]
        omega
      · simp only [beq_eq_false_iff_ne.mpr (Ne.symm equal), Bool.false_eq_true, if_false]
        exact before
  | pushed caller m stage mode =>
    refine ids.keep rfl fun id => Nat.le_of_eq ?_
    have moved := unregistered_set stage (.queued m) id
    simp only [issued, List.count_append, WriteCall.unregistered,
      Nat.add_right_cancel_iff] at moved ⊢
    rw [moved]
  | unqueued caller m stage mode =>
    refine ids.keep rfl fun id => Nat.le_of_eq ?_
    have moved := unregistered_set stage (.queued m) id
    simp only [issued, List.count_append, WriteCall.unregistered,
      Nat.add_right_cancel_iff] at moved ⊢
    rw [moved]
  | inserted caller m stage =>
    refine ids.keep rfl fun id => Nat.le_of_eq ?_
    have moved := unregistered_set stage (.inserted m s.allocated) id
    simp only [WriteCall.unregistered, Option.toList, List.count_nil, List.count_cons,
      Outgoing.reqId, beq_iff_eq] at moved
    simp only [issued, List.count_append, List.map_cons, List.count_cons, beq_iff_eq]
    omega
  | armed caller m p stage =>
    refine ids.keep rfl fun id => Nat.le_of_eq ?_
    have moved := unregistered_set stage (.armed m) id
    simp only [issued, List.count_append, WriteCall.unregistered, ClientLoop.store,
      Nat.add_right_cancel_iff] at moved ⊢
    rw [moved]
  | returned caller m stage =>
    refine ids.keep rfl fun id => ?_
    simp only [issued, List.count_append]
    exact Nat.add_le_add_left
      (((List.eraseIdx_sublist s.writers caller).filterMap _).count_le id) _
  | connectOk index op link erased start done reading erases =>
    rw [erases.rest]
    exact ⟨ids.index, ids.taken, ids.once⟩
  | erased error timer after moved erases =>
    rw [erases.rest]
    exact ⟨ids.index, ids.taken, ids.once⟩
  | _ => exact ⟨ids.index, ids.taken, ids.once⟩

theorem IdsApart.registered (ids : IdsApart count s) {r other : Registration}
    (member : r ∈ s.registered) (again : other ∈ s.registered) (same : r.reqId = other.reqId) :
    r = other := by
  have distinct : (s.registered.map Registration.reqId).Nodup := by
    refine List.nodup_iff_count_le_one.mpr fun id => ?_
    have once := ids.once id
    rw [issued, List.count_append] at once
    exact Nat.le_trans (Nat.le_add_right _ _) once
  exact List.inj_on_of_nodup_map distinct member again same

theorem IdsApart.unregistered (ids : IdsApart count s) {caller : Nat} {m : Outgoing}
    (stage : s.writers[caller]? = some (.queued m)) : ∀ r ∈ s.registered, r.reqId ≠ m.reqId := by
  intro r member same
  have once := ids.once m.reqId
  have first : 0 < (s.registered.map Registration.reqId).count m.reqId := by
    rw [List.count_pos_iff, ← same]
    exact List.mem_map_of_mem member
  have second : 0 < (s.writers.filterMap WriteCall.unregistered).count m.reqId :=
    List.count_pos_iff.mpr (List.mem_filterMap.mpr ⟨_, List.mem_of_getElem? stage, rfl⟩)
  rw [issued, List.count_append] at once
  omega

/-! ### Entries -/

theorem Catalogued.initial (csq : ClientSendQueue) : Catalogued (start csq) where
  known _ member := by cases member
  apart _ member := by cases member
  mapped id p found := by simp [start] at found
  heads _ member := by cases member
  readers _ member := by cases member
  marked _ member := by cases member
  flagged _ member := by cases member
  listed _ member := by cases member

/-- A step that registers and collects nothing, and keeps ids and marks of entries. -/
theorem Catalogued.keep (entries : Catalogued s) (registered : next.registered = s.registered)
    (collected : next.collected = s.collected) (allocated : s.allocated ≤ next.allocated)
    (map : ∀ (id : Int32) (p : Ptr), next.recvMsgMap[id]? = some p → s.recvMsgMap[id]? = some p)
    (same : ∀ p, p < s.allocated →
      (next.entries p).headInfo.reqId = (s.entries p).headInfo.reqId ∧
        ((s.entries p).Marked → (next.entries p).Marked))
    (readers : ∀ call ∈ next.readers, call ∈ s.readers)
    (list : ∀ id ∈ next.delReqidList.items, id ∈ s.delReqidList.items) : Catalogued next where
  known r member := by
    rw [registered] at member
    exact Nat.lt_of_lt_of_le (entries.known r member) allocated
  apart r member other again := by
    rw [registered] at member again
    exact entries.apart r member other again
  mapped id p found := by
    rw [registered]
    exact entries.mapped id p (map id p found)
  heads r member := by
    rw [registered] at member
    exact (same r.entry (entries.known r member)).1.trans (entries.heads r member)
  readers call member := by
    rw [registered]
    exact entries.readers call (readers call member)
  marked p member := by
    rw [collected]
    exact entries.marked p (readers _ member)
  flagged p member := by
    rw [collected] at member
    obtain ⟨old, flag⟩ := entries.flagged p member
    exact ⟨Nat.lt_of_lt_of_le old allocated, (same p old).2 flag⟩
  listed id member := by
    rw [registered, collected]
    exact entries.listed id (list id member)

theorem Catalogued.store (entries : Catalogued s) {p : Ptr} {m : RpcStruct}
    (head : m.headInfo.reqId = (s.entries p).headInfo.reqId)
    (flag : m.eraseFlag = (s.entries p).eraseFlag) : Catalogued (s.store p m) := by
  refine entries.keep rfl rfl (Nat.le_refl _) (fun _ _ found => found) ?_
    (fun _ member => member) fun _ member => member
  intro q _
  by_cases equal : q = p
  · subst equal
    simp [ClientLoop.store, RpcStruct.Marked, head, flag]
  · simp [ClientLoop.store, equal]

theorem Catalogued.erases (entries : Catalogued s) (erases : Erases s next)
    (list : ∀ id ∈ next.delReqidList.items, id ∈ s.delReqidList.items) : Catalogued next := by
  have rest := erases.rest
  refine entries.keep (by rw [rest]) (by rw [rest]) (by rw [rest]) erases.sub ?_ ?_ list
  · intro p _
    refine ⟨?_, (erases.marked p).mpr⟩
    rw [erases.entry p]
  · intro call member
    rw [rest] at member
    exact member

theorem Catalogued.inserted (entries : Catalogued s) (writers : List WriteCall) (addr : Ptr)
    (reqId : Int32) :
    Catalogued { s with
      recvMsgMap := s.recvMsgMap.insert reqId s.allocated
      entries := Function.update s.entries s.allocated (recvEntry reqId)
      allocated := s.allocated + 1
      writers := writers
      registered := { addr := addr, reqId := reqId, entry := s.allocated } :: s.registered } where
  known r member := by
    rcases List.mem_cons.mp member with rfl | old
    · exact Nat.lt_succ_self _
    · exact Nat.lt_succ_of_lt (entries.known r old)
  apart r member other again same := by
    rcases List.mem_cons.mp member with rfl | old
    · rcases List.mem_cons.mp again with rfl | older
      · rfl
      · exact absurd same.symm (Nat.ne_of_lt (entries.known other older))
    · rcases List.mem_cons.mp again with rfl | older
      · exact absurd same (Nat.ne_of_lt (entries.known r old))
      · exact entries.apart r old other older same
  mapped id p found := by
    simp only [Std.TreeMap.getElem?_insert] at found
    split at found
    · rename_i equal
      cases found
      exact ⟨_, List.mem_cons_self, Std.LawfulEqCmp.compare_eq_iff_eq.mp equal, rfl⟩
    · obtain ⟨r, old, about⟩ := entries.mapped id p found
      exact ⟨r, List.mem_cons_of_mem _ old, about⟩
  heads r member := by
    rcases List.mem_cons.mp member with rfl | old
    · simp [recvEntry, RpcStructHead.setReqId, RpcStructHead.reqId]
    · have other : r.entry ≠ s.allocated := Nat.ne_of_lt (entries.known r old)
      simpa [other] using entries.heads r old
  readers call member := by
    obtain ⟨r, old, about⟩ := entries.readers call member
    exact ⟨r, List.mem_cons_of_mem _ old, about⟩
  marked := entries.marked
  flagged p member := by
    obtain ⟨old, flag⟩ := entries.flagged p member
    have other : p ≠ s.allocated := Nat.ne_of_lt old
    exact ⟨Nat.lt_succ_of_lt old, by simpa [other] using flag⟩
  listed id member := by
    obtain ⟨r, old, about⟩ := entries.listed id member
    exact ⟨r, List.mem_cons_of_mem _ old, about⟩

theorem Catalogued.found (entries : Catalogued s) {reqId : Int32} {p : Ptr}
    (present : s.recvMsgMap[reqId]? = some p) :
    Catalogued { s with readers := s.readers ++ [.waiting p] } where
  known := entries.known
  apart := entries.apart
  mapped := entries.mapped
  heads := entries.heads
  readers call member := by
    rcases List.mem_append.mp member with old | new
    · exact entries.readers call old
    · obtain ⟨r, known, _, entry⟩ := entries.mapped reqId p present
      rw [List.mem_singleton.mp new]
      exact ⟨r, known, entry⟩
  marked q member := by
    rcases List.mem_append.mp member with old | new
    · exact entries.marked q old
    · cases List.mem_singleton.mp new
  flagged := entries.flagged
  listed := entries.listed

theorem Catalogued.mark (entries : Catalogued s) {caller : Nat} {p : Ptr}
    (stage : s.readers[caller]? = some (.waiting p)) :
    Catalogued { s.store p { s.entries p with eraseFlag := .eraseState } with
      readers := s.readers.set caller (.marked p)
      collected := p :: s.collected } := by
  obtain ⟨r, member, about⟩ := entries.readers _ (List.mem_of_getElem? stage)
  have other : ∀ q, q ≠ p → (s.store p { s.entries p with eraseFlag := .eraseState }).entries q =
      s.entries q := fun q different => by simp [ClientLoop.store, different]
  refine ⟨entries.known, entries.apart, entries.mapped, ?_, ?_, ?_, ?_, ?_⟩
  · intro r member
    by_cases equal : r.entry = p
    · simpa [ClientLoop.store, equal] using equal ▸ entries.heads r member
    · rw [← entries.heads r member]
      exact congrArg (fun m : RpcStruct => m.headInfo.reqId) (other _ equal)
  · intro call member'
    rcases List.mem_or_eq_of_mem_set member' with old | rfl
    · exact entries.readers call old
    · exact ⟨r, member, about⟩
  · intro q member'
    rcases List.mem_or_eq_of_mem_set member' with old | new
    · exact List.mem_cons_of_mem _ (entries.marked q old)
    · cases new
      exact List.mem_cons_self
  · intro q member'
    by_cases equal : q = p
    · subst equal
      have old : q < s.allocated :=
        Nat.lt_of_le_of_lt (Nat.le_of_eq about.symm) (entries.known r member)
      exact ⟨old, by simp [ClientLoop.store, RpcStruct.Marked]⟩
    · rcases List.mem_cons.mp member' with same | old
      · exact absurd same equal
      · obtain ⟨known, flag⟩ := entries.flagged q old
        exact ⟨known, (other q equal).symm ▸ flag⟩
  · intro id member'
    obtain ⟨found, known, same, old⟩ := entries.listed id member'
    exact ⟨found, known, same, List.mem_cons_of_mem _ old⟩

theorem Catalogued.list (entries : Catalogued s) {caller : Nat} {p : Ptr}
    (stage : s.readers[caller]? = some (.marked p)) :
    Catalogued { s with
      delReqidList := s.delReqidList.push (s.entries p).headInfo.reqId
      readers := s.readers.eraseIdx caller } where
  known := entries.known
  apart := entries.apart
  mapped := entries.mapped
  heads := entries.heads
  readers call member := entries.readers call (List.mem_of_mem_eraseIdx member)
  marked q member := entries.marked q (List.mem_of_mem_eraseIdx member)
  flagged := entries.flagged
  listed id member := by
    rcases List.mem_append.mp member with old | new
    · exact entries.listed id old
    · have reader := List.mem_of_getElem? stage
      obtain ⟨r, known, about⟩ := entries.readers _ reader
      have same : r.entry = p := about
      rw [List.mem_singleton.mp new]
      refine ⟨r, known, ?_, same ▸ entries.marked p reader⟩
      exact same ▸ (entries.heads r known).symm

/-- The header a frame brings names the entry that is found for it. -/
theorem Catalogued.head_mapped (entries : Catalogued s) {id : Int32} {p : Ptr}
    (found : s.recvMsgMap[id]? = some p) : (s.entries p).headInfo.reqId = id := by
  obtain ⟨r, member, same, rfl⟩ := entries.mapped id p found
  exact (entries.heads r member).trans same

theorem Catalogued.step (entries : Catalogued s)
    (taken : (machine layout).step s event = some next) : Catalogued next := by
  cases transition_of_step taken with
  | begun msg msgL res built =>
    exact entries.keep rfl rfl (Nat.le_succ _) (fun _ _ found => found)
      (fun _ _ => ⟨rfl, id⟩) (fun _ member => member) fun _ member => member
  | inserted caller m stage => exact entries.inserted _ _ _
  | armed caller m p stage =>
    have stored := entries.store (p := p) (m := (s.entries p).doInitTimer) rfl rfl
    exact { stored with }
  | found reqId p present => exact entries.found present
  | marked caller p stage final => exact entries.mark stage
  | listed caller p stage => exact entries.list stage
  | receivedMsg index op p length bytes filled start live up kind copied =>
    have frame := RpcStruct.copyIn_frame copied
    have stored := entries.store (p := p) (m := filled) (by rw [frame]) (by rw [frame])
    exact { stored with }
  | headKnown index op head p known readMsg link start done opened kind present headed buffer
      reading =>
    have first := RpcStruct.setHead_frame headed
    have second := RpcStruct.newData_frame buffer
    have same := entries.head_mapped present
    have stored := entries.store (p := p) (m := readMsg) (by rw [second, first, same])
      (by rw [second, first])
    exact { stored with }
  | headUnknown index op head readMsg link start done opened kind unknown buffer reading =>
    refine entries.keep rfl rfl (Nat.le_succ _) (fun _ _ found => found) ?_
      (fun _ member => member) fun _ member => member
    intro p old
    have other : p ≠ s.allocated := Nat.ne_of_lt old
    simp [ClientLoop.store, other]
  | msgFailed index op p length link start failed opened kind closing =>
    have stored := entries.store (p := p) (m := (s.entries p).setStatus .error) rfl rfl
    exact { stored with }
  | msgOk index op p length readMsg link start done opened kind body reading =>
    have frame := RpcStruct.newData_frame body
    have stored := entries.store (p := p) (m := readMsg.setStatus .readOk)
      (by rw [frame]; rfl) (by rw [frame]; rfl)
    exact { stored with }
  | expired p timer moved => exact entries.store rfl rfl
  | timedOut p timer moved => exact entries.store rfl rfl
  | timeoutCancelled p timer moved => exact entries.store rfl rfl
  | connectOk index op link erased start done reading erases =>
    have before : Catalogued { s with link := link } := { entries with }
    have after := before.erases erases (tick_sweeps rfl taken).old
    exact { after with }
  | erased error timer after moved erases =>
    have before : Catalogued { s with eTimer := timer } := { entries with }
    have later := before.erases erases (tick_sweeps rfl taken).old
    exact { later with }
  | _ => exact { entries with }

end ClientLoop

/-! ### Calls of `read` -/

open ClientLoop

/-- A client with the id of each call of `read` that is looking at an entry, and
the ids whose `read` has seen a final status. -/
structure ReadingClient where
  loop : ClientLoop
  asked : List Int32
  seen : List Int32

namespace ReadingClient

def start (csq : ClientSendQueue) : ReadingClient where
  loop := .start csq
  asked := []
  seen := []

def askedAfter (s : ReadingClient) : Event → List Int32
  | .find reqId => if s.loop.recvMsgMap[reqId]?.isSome then s.asked ++ [reqId] else s.asked
  | .list caller => s.asked.eraseIdx caller
  | _ => s.asked

def seenAfter (s : ReadingClient) : Event → List Int32
  | .mark caller => s.asked[caller]?.toList ++ s.seen
  | _ => s.seen

def step (layout : IntLayout) (s : ReadingClient) (event : Event) : Option ReadingClient := do
  let loop ← s.loop.step layout event
  return { loop := loop, asked := s.askedAfter event, seen := s.seenAfter event }

def machine (layout : IntLayout) : Machine ReadingClient Event where
  step := step layout

/-- What leaves the map was read before under its id. -/
def ErasedAfterRead (before : ReadingClient) (_ : Event) (after : ReadingClient) : Prop :=
  ∀ (id : Int32) (p : Ptr), before.loop.recvMsgMap[id]? = some p →
    after.loop.recvMsgMap[id]? ≠ some p → id ∈ before.seen

/-- Listed entries are marked, entries have their own ids, and every request
that nobody has read is in the map. -/
structure OnlyCollected (s : ReadingClient) : Prop where
  listed : ∀ id ∈ s.loop.delReqidList.items, ∀ p, s.loop.recvMsgMap[id]? = some p →
    (s.loop.entries p).Marked
  keys : ∀ (id : Int32) (p : Ptr), s.loop.recvMsgMap[id]? = some p →
    (s.loop.entries p).headInfo.reqId = id
  unread : ∀ r ∈ s.loop.registered, r.reqId ∉ s.seen → s.loop.recvMsgMap[r.reqId]? = some r.entry

/-- What a client keeps after some number of writes. -/
structure Reading (count : Nat) (s : ReadingClient) : Prop where
  ids : IdsApart count s.loop
  entries : Catalogued s.loop
  kept : EntriesKept s.loop
  length : s.asked.length = s.loop.readers.length
  names : ∀ (caller : Nat) (call : ReadCall) (id : Int32),
    s.loop.readers[caller]? = some call → s.asked[caller]? = some id →
    ∃ r ∈ s.loop.registered, r.entry = call.entry ∧ r.reqId = id
  seen : ∀ r ∈ s.loop.registered, r.entry ∈ s.loop.collected → r.reqId ∈ s.seen

variable {layout : IntLayout} {s next : ReadingClient} {event : Event} {count : Nat}

theorem Reading.initial (csq : ClientSendQueue) : Reading 0 (start csq) where
  ids := .initial csq
  entries := .initial csq
  kept := .initial csq
  length := rfl
  names caller call id stage := by simp [start, ClientLoop.start] at stage
  seen _ member := by cases member

theorem Reading.onlyCollected (reading : Reading count s) : OnlyCollected s where
  listed id member p found := by
    obtain ⟨r, known, same, collected⟩ := reading.entries.listed id member
    obtain ⟨other, again, also, rfl⟩ := reading.entries.mapped id p found
    rw [← reading.ids.registered known again (same.trans also.symm)]
    exact (reading.entries.flagged r.entry collected).2
  keys id p found := reading.entries.head_mapped found
  unread r member unseen := by
    have newest : newest s.loop r.reqId = some r := by
      cases found : newest s.loop r.reqId with
      | none =>
        have absent := List.find?_eq_none.mp found r member
        simp at absent
      | some other =>
        have same : other.reqId = r.reqId := by simpa using List.find?_some found
        rw [reading.ids.registered (List.mem_of_find?_eq_some found) member same]
    rcases reading.kept.kept r.reqId r newest with present | collected
    · exact present
    · exact absurd (reading.seen r member collected) unseen

/-- Only marked entries leave the map, and a registration replaces none. -/
theorem Reading.erasedAfterRead (reading : Reading count s) {loop : ClientLoop}
    (transition : Transition layout s.loop event loop) {id : Int32} {p : Ptr}
    (found : s.loop.recvMsgMap[id]? = some p) (lost : loop.recvMsgMap[id]? ≠ some p) :
    id ∈ s.seen := by
  obtain ⟨r, member, rfl, rfl⟩ := reading.entries.mapped id p found
  have marked : (s.loop.entries r.entry).Marked → r.reqId ∈ s.seen := fun flag =>
    reading.seen r member (reading.kept.marked _ flag)
  cases transition with
  | inserted caller m stage =>
    have other : m.obj.headInfo.reqId ≠ r.reqId := (reading.ids.unregistered stage r member).symm
    simp only [Std.TreeMap.getElem?_insert, Std.LawfulEqCmp.compare_eq_iff_eq, other,
      if_false] at lost
    exact absurd found lost
  | connectOk index op link erased start done head erases =>
    rcases erases.kept _ _ found with still | flag
    · exact absurd still lost
    · exact marked flag
  | erased error timer after moved erases =>
    rcases erases.kept _ _ found with still | flag
    · exact absurd still lost
    · exact marked flag
  | _ => exact absurd found lost

/-- A call of `read` that changes nothing has found nothing. -/
theorem absent_of_find {loop : ClientLoop} {reqId : Int32}
    (same : (ClientLoop.machine layout).step loop (.find reqId) = some loop) :
    loop.recvMsgMap[reqId]? = none := by
  cases found : loop.recvMsgMap[reqId]? with
  | none => rfl
  | some p =>
    have moved := congrArg (fun l : ClientLoop => l.readers.length) (Option.some.inj same)
    simp [findEntry, found] at moved

/-- What a call of `read` points to, and the id it asked for, name the same registration. -/
theorem Reading.names_step (reading : Reading count s) {loop : ClientLoop}
    (moved : (ClientLoop.machine layout).step s.loop event = some loop) {caller : Nat}
    {call : ReadCall}
    {id : Int32} (stage : loop.readers[caller]? = some call)
    (asks : (s.askedAfter event)[caller]? = some id) :
    ∃ r ∈ loop.registered, r.entry = call.entry ∧ r.reqId = id := by
  cases transition_of_step moved with
  | inserted writer m queued =>
    obtain ⟨r, member, about⟩ := reading.names caller call id stage asks
    exact ⟨r, List.mem_cons_of_mem _ member, about⟩
  | absent reqId =>
    simp only [askedAfter, absent_of_find moved, Option.isSome_none, Bool.false_eq_true,
      if_false] at asks
    exact reading.names caller call id stage asks
  | found reqId p present =>
    simp only [askedAfter, present, Option.isSome_some, if_true] at asks
    by_cases new : caller < s.loop.readers.length
    · rw [List.getElem?_append_left new] at stage
      rw [List.getElem?_append_left (by rw [reading.length]; exact new)] at asks
      exact reading.names caller call id stage asks
    · rw [List.getElem?_append_right (Nat.le_of_not_lt new)] at stage
      rw [List.getElem?_append_right (by rw [reading.length]; exact Nat.le_of_not_lt new),
        reading.length] at asks
      cases List.mem_singleton.mp (List.mem_of_getElem? stage)
      cases List.mem_singleton.mp (List.mem_of_getElem? asks)
      obtain ⟨r, member, same, entry⟩ := reading.entries.mapped id p present
      exact ⟨r, member, entry, same⟩
  | marked reader p old final =>
    simp only [askedAfter] at asks
    by_cases same : reader = caller
    · subst same
      rw [List.getElem?_set_self (List.getElem?_eq_some_iff.mp old).1] at stage
      cases stage
      exact reading.names reader (.waiting p) id old asks
    · rw [List.getElem?_set_ne same] at stage
      exact reading.names caller call id stage asks
  | listed reader p old =>
    simp only [askedAfter, List.getElem?_eraseIdx] at stage asks
    split at stage
    · rename_i before
      rw [if_pos before] at asks
      exact reading.names caller call id stage asks
    · rename_i behind
      rw [if_neg behind] at asks
      exact reading.names (caller + 1) call id stage asks
  | connectOk index op link erased start done head erases =>
    have rest := erases.rest
    rw [rest] at stage ⊢
    exact reading.names caller call id stage asks
  | erased error timer after moved erases =>
    have rest := erases.rest
    rw [rest] at stage ⊢
    exact reading.names caller call id stage asks
  | _ => exact reading.names caller call id stage asks

theorem Reading.length_step (reading : Reading count s) {loop : ClientLoop}
    (moved : (ClientLoop.machine layout).step s.loop event = some loop) :
    (s.askedAfter event).length = loop.readers.length := by
  have length := reading.length
  cases transition_of_step moved with
  | absent reqId =>
    simp only [askedAfter, absent_of_find moved, Option.isSome_none, Bool.false_eq_true, if_false]
    exact length
  | found reqId p present => simp [askedAfter, present, length]
  | marked caller p stage final => simpa [askedAfter] using length
  | listed caller p stage => simp [askedAfter, List.length_eraseIdx, length]
  | connectOk index op link erased start done head erases =>
    rw [erases.rest]
    exact length
  | erased error timer after moved erases =>
    rw [erases.rest]
    exact length
  | _ => exact length

/-- A call that sees a final status has asked for the id of its entry. -/
theorem Reading.seen_step (reading : Reading count s) {loop : ClientLoop}
    (transition : Transition layout s.loop event loop) :
    ∀ r ∈ loop.registered, r.entry ∈ loop.collected → r.reqId ∈ s.seenAfter event := by
  intro r member collected
  cases transition with
  | inserted caller m stage =>
    rcases List.mem_cons.mp member with rfl | old
    · exact absurd (reading.entries.flagged _ collected).1 (Nat.lt_irrefl _)
    · exact reading.seen r old collected
  | marked caller p stage final =>
    simp only [seenAfter]
    rcases List.mem_cons.mp collected with same | old
    · have inside : caller < s.asked.length := by
        rw [reading.length]
        exact (List.getElem?_eq_some_iff.mp stage).1
      obtain ⟨other, again, entry, names⟩ :=
        reading.names caller _ _ stage (List.getElem?_eq_getElem inside)
      have equal := reading.entries.apart r member other again (same.trans entry.symm)
      rw [List.getElem?_eq_getElem inside, ← names, equal]
      exact List.mem_append_left _ (List.mem_singleton.mpr rfl)
    · exact List.mem_append_right _ (reading.seen r member old)
  | connectOk index op link erased start done head erases =>
    rw [erases.rest] at member collected
    exact reading.seen r member collected
  | erased error timer after moved erases =>
    rw [erases.rest] at member collected
    exact reading.seen r member collected
  | _ => exact reading.seen r member collected

theorem Reading.step (reading : Reading count s)
    (taken : (machine layout).step s event = some next)
    (few : count + event.writes < 2 ^ 32) : Reading (count + event.writes) next := by
  simp only [machine, ReadingClient.step, Option.bind_eq_bind, Option.bind_eq_some_iff,
    Option.pure_def, Option.some.injEq] at taken
  obtain ⟨loop, moved, rfl⟩ := taken
  have transition := transition_of_step moved
  exact {
    ids := reading.ids.step transition few
    entries := reading.entries.step moved
    kept := reading.kept.step transition
    length := reading.length_step moved
    names := fun _ _ _ stage asks => reading.names_step moved stage asks
    seen := reading.seen_step transition }

theorem Reading.erased (reading : Reading count s)
    (taken : (machine layout).step s event = some next) : ErasedAfterRead s event next := by
  simp only [machine, ReadingClient.step, Option.bind_eq_bind, Option.bind_eq_some_iff,
    Option.pure_def, Option.some.injEq] at taken
  obtain ⟨loop, moved, rfl⟩ := taken
  intro id p found lost
  exact reading.erasedAfterRead (transition_of_step moved) found lost

/-- In a run with fewer than 2^32 writes, only requests that `read` has collected
are erased, whatever arrives and in whatever order timers, ticks and callers run. -/
theorem onlyCollected_always (layout : IntLayout) (csq : ClientSendQueue) (schedule : List Event)
    (few : (writeCalls schedule).length < 2 ^ 32) :
    (machine layout).AllSteps ErasedAfterRead (start csq) schedule ∧
      (machine layout).Always OnlyCollected (start csq) schedule := by
  have bound : 0 + (schedule.map Event.writes).sum ≤ 2 ^ 32 - 1 := by
    rw [writes_sum]
    omega
  constructor
  · refine Machine.allSteps_of_counted Event.writes (2 ^ 32 - 1) Reading ?_ (.initial csq) bound
    intro count before label after reading taken within
    exact ⟨reading.erased taken, reading.step taken (by omega)⟩
  · refine Machine.always_of_counted Event.writes (2 ^ 32 - 1) Reading
      (fun reading => reading.onlyCollected) ?_ (.initial csq) bound
    intro count before label after reading taken within
    exact reading.step taken (by omega)

/-- A request is answered, read and erased by the second tick after it. -/
def readAndErased : List Event :=
  replyStarted ++ [.received 0 [49, 50, 51, 52, 53, 54, 55, 56, 9], .handleRead 0 false,
    .find 1, .mark 0, .list 0, .eraseExpire, .eraseTimer false, .eraseExpire, .eraseTimer false]

theorem readAndErased_onlyCollected :
    (machine .littleEndian).AllSteps ErasedAfterRead (start .on) readAndErased ∧
      (machine .littleEndian).Always OnlyCollected (start .on) readAndErased :=
  onlyCollected_always .littleEndian .on readAndErased (by decide)

end ReadingClient

end RpcLoop
