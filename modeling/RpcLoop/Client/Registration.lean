import RpcLoop.Client.Sending

/-! Whether a request is in `recv_msg_map_` before it can be answered.
`newMsgBuf` pushes a message first and inserts its entry afterwards, so the io
thread may send a message that its caller has not registered yet. -/

namespace RpcLoop

open Foundation Asio Shared

/-- The message a call of `write` works on. -/
def WriteCall.msg : WriteCall → Outgoing
  | .built m => m
  | .queued m => m
  | .inserted m _ => m
  | .armed m => m

/-- The caller has inserted the entry of its message. -/
def WriteCall.passed : WriteCall → Bool
  | .built _ => false
  | .queued _ => false
  | .inserted _ _ => true
  | .armed _ => true

def Outgoing.reqId (m : Outgoing) : Int32 := m.obj.headInfo.reqId

namespace ClientLoop

/-- The request's caller has inserted its entry. -/
def Registered (s : ClientLoop) (m : Outgoing) : Prop :=
  ∃ r ∈ s.registered, r.addr = m.addr ∧ r.reqId = m.reqId

/-- The entry that was inserted last for an id. -/
def newest (s : ClientLoop) (reqId : Int32) : Option Registration :=
  s.registered.find? fun r => r.reqId == reqId

/-- Every message handed to `async_write` has been registered, and a reply to it
finds the entry unless `read` has collected it. -/
structure RegisteredFirst (s : ClientLoop) : Prop where
  registered : ∀ m ∈ s.handed, Registered s m
  found : ∀ m ∈ s.handed, ∃ r, newest s m.reqId = some r ∧
    (s.recvMsgMap[m.reqId]? = some r.entry ∨ r.entry ∈ s.collected)

/-- No message is sent while its caller stands between the push and the insertion. -/
def SendsRegistered (s : ClientLoop) (event : Event) (_ : ClientLoop) : Prop :=
  ∀ m, sends s event = some m → .queued m ∉ s.writers

variable {layout : IntLayout} {s next : ClientLoop} {event : Event}

/-! ### Entries -/

/-- Entries stay in the map until they are collected. -/
structure EntriesKept (s : ClientLoop) : Prop where
  kept : ∀ reqId r, newest s reqId = some r →
    s.recvMsgMap[reqId]? = some r.entry ∨ r.entry ∈ s.collected
  marked : ∀ p, (s.entries p).Marked → p ∈ s.collected

theorem EntriesKept.initial (csq : ClientSendQueue) : EntriesKept (start csq) where
  kept _ _ found := by cases found
  marked p flag := by simp [start, RpcStruct.Marked, RpcStruct.new, RpcStruct.ofHead] at flag

theorem EntriesKept.store (kept : EntriesKept s) {p : Ptr} {m : RpcStruct}
    (same : m.eraseFlag = (s.entries p).eraseFlag) : EntriesKept (s.store p m) where
  kept := kept.kept
  marked q flag := by
    by_cases equal : q = p
    · subst equal
      apply kept.marked
      simpa [ClientLoop.store, RpcStruct.Marked, same] using flag
    · apply kept.marked
      simpa [ClientLoop.store, equal] using flag

theorem EntriesKept.storeNew (kept : EntriesKept s) {p : Ptr} {m : RpcStruct}
    (same : m.eraseFlag = .unknown) : EntriesKept (s.store p m) where
  kept := kept.kept
  marked q flag := by
    by_cases equal : q = p
    · subst equal
      simp [ClientLoop.store, RpcStruct.Marked, same] at flag
    · apply kept.marked
      simpa [ClientLoop.store, equal] using flag

theorem EntriesKept.erases (kept : EntriesKept s) (erases : Erases s next) : EntriesKept next where
  kept reqId r found := by
    have rest := erases.rest
    have collected : next.collected = s.collected := by rw [rest]
    have same : newest next reqId = newest s reqId := by rw [newest, newest, rest]
    rw [same] at found
    rw [collected]
    rcases kept.kept reqId r found with present | old
    · rcases erases.kept reqId r.entry present with still | marked
      · exact .inl still
      · exact .inr (kept.marked _ marked)
    · exact .inr old
  marked p flag := by
    have collected : next.collected = s.collected := by rw [erases.rest]
    rw [collected]
    exact kept.marked p ((erases.marked p).mp flag)

theorem EntriesKept.step (kept : EntriesKept s) (transition : Transition layout s event next) :
    EntriesKept next := by
  cases transition with
  | inserted caller m stage =>
    constructor
    · intro reqId r found
      simp only [newest, List.find?_cons] at found
      by_cases same : m.obj.headInfo.reqId = reqId
      · subst same
        simp only [beq_self_eq_true] at found
        cases found
        exact .inl (by simp)
      · simp only [beq_eq_false_iff_ne.mpr same] at found
        rw [Std.TreeMap.getElem?_insert, if_neg (by simpa using same)]
        exact kept.kept reqId r found
    · intro p flag
      by_cases equal : p = s.allocated
      · subst equal
        simp [RpcStruct.Marked, recvEntry, RpcStruct.new, RpcStruct.ofHead] at flag
      · apply kept.marked
        simpa [equal] using flag
  | armed caller m p stage =>
    have same := kept.store (p := p) (m := (s.entries p).doInitTimer) rfl
    exact ⟨same.kept, same.marked⟩
  | marked caller p stage final =>
    constructor
    · intro reqId r found
      rcases kept.kept reqId r found with present | old
      · exact .inl present
      · exact .inr (List.mem_cons_of_mem _ old)
    · intro q flag
      by_cases equal : q = p
      · exact equal ▸ List.mem_cons_self
      · apply List.mem_cons_of_mem
        apply kept.marked
        simpa [ClientLoop.store, equal] using flag
  | receivedMsg index op p length bytes filled start live up kind copied =>
    have frame := RpcStruct.copyIn_frame copied
    have same := kept.store (p := p) (m := filled) (by rw [frame])
    exact ⟨same.kept, same.marked⟩
  | headKnown index op head p known readMsg link start done opened kind present headed buffer
      reading =>
    have first := RpcStruct.setHead_frame headed
    have second := RpcStruct.newData_frame buffer
    have same := kept.store (p := p) (m := readMsg) (by rw [second, first])
    exact ⟨same.kept, same.marked⟩
  | headUnknown index op head readMsg link start done opened kind unknown buffer reading =>
    have frame := RpcStruct.newData_frame buffer
    have same := kept.storeNew (p := s.allocated) (m := readMsg) (by rw [frame]; rfl)
    exact ⟨same.kept, same.marked⟩
  | msgFailed index op p length link start failed opened kind closing =>
    have same := kept.store (p := p) (m := (s.entries p).setStatus .error) rfl
    exact ⟨same.kept, same.marked⟩
  | msgOk index op p length readMsg link start done opened kind body reading =>
    have frame := RpcStruct.newData_frame body
    have same := kept.store (p := p) (m := readMsg.setStatus .readOk) (by rw [frame]; rfl)
    exact ⟨same.kept, same.marked⟩
  | expired p timer moved => exact kept.store rfl
  | timedOut p timer moved => exact kept.store rfl
  | timeoutCancelled p timer moved => exact kept.store rfl
  | connectOk index op link erased start done reading erases =>
    have before : EntriesKept { s with link := link } := ⟨kept.kept, kept.marked⟩
    have after := before.erases erases
    exact ⟨after.kept, after.marked⟩
  | erased error timer after moved erases =>
    have before : EntriesKept { s with eTimer := timer } := ⟨kept.kept, kept.marked⟩
    have later := before.erases erases
    exact ⟨later.kept, later.marked⟩
  | _ => exact ⟨kept.kept, kept.marked⟩

/-! ### Callers -/

/-- Callers work on different messages, and a message is registered exactly
when its caller has passed the insertion. -/
structure CallersApart (s : ClientLoop) : Prop where
  fresh : ∀ w ∈ s.writers, w.msg.addr < s.allocated
  recorded : ∀ r ∈ s.registered, r.addr < s.allocated
  distinct : (s.writers.map fun w => w.msg.addr).Nodup
  before : ∀ w ∈ s.writers, w.passed = false → ∀ r ∈ s.registered, r.addr ≠ w.msg.addr
  behind : ∀ w ∈ s.writers, w.passed = true → Registered s w.msg

theorem CallersApart.initial (csq : ClientSendQueue) : CallersApart (start csq) where
  fresh _ member := by cases member
  recorded _ member := by cases member
  distinct := List.nodup_nil
  before _ member := by cases member
  behind _ member := by cases member

theorem Registered.mono {m : Outgoing} (known : Registered s m)
    (more : ∀ r ∈ s.registered, r ∈ next.registered) : Registered next m := by
  obtain ⟨r, member, about⟩ := known
  exact ⟨r, more r member, about⟩

theorem CallersApart.begun (apart : CallersApart s) (res : RpcStruct) (index : Int32) :
    CallersApart { s with
      msgIndex := index
      allocated := s.allocated + 1
      writers := s.writers ++ [.built { addr := s.allocated, obj := res }] } where
  fresh w member := by
    rcases List.mem_append.mp member with old | new
    · exact Nat.lt_succ_of_lt (apart.fresh w old)
    · rw [List.mem_singleton.mp new]
      exact Nat.lt_succ_self _
  recorded r member := Nat.lt_succ_of_lt (apart.recorded r member)
  distinct := by
    rw [List.map_append]
    apply List.nodup_append.mpr
    refine ⟨apart.distinct, by simp, ?_⟩
    intro addr old other new
    obtain ⟨w, member, rfl⟩ := List.mem_map.mp old
    obtain ⟨v, last, rfl⟩ := List.mem_map.mp new
    rw [List.mem_singleton.mp last]
    exact Nat.ne_of_lt (apart.fresh w member)
  before w member waiting r known := by
    rcases List.mem_append.mp member with old | new
    · exact apart.before w old waiting r known
    · rw [List.mem_singleton.mp new]
      exact Nat.ne_of_lt (apart.recorded r known)
  behind w member past := by
    rcases List.mem_append.mp member with old | new
    · exact (apart.behind w old past).mono fun _ same => same
    · rw [List.mem_singleton.mp new] at past
      cases past

/-- When one call goes on, the others work on different messages. -/
theorem CallersApart.others (apart : CallersApart s) {caller : Nat} {w : WriteCall}
    (stage : s.writers[caller]? = some w) (v : WriteCall) :
    ∀ u ∈ s.writers.set caller v, u = v ∨ u ∈ s.writers ∧ u.msg.addr ≠ w.msg.addr := by
  obtain ⟨first, last, split, replaced⟩ := split_of_set stage
  have distinct := apart.distinct
  rw [split, List.map_append, List.map_cons] at distinct
  have parts := List.nodup_append.mp distinct
  intro u member
  rw [replaced v] at member
  rw [split]
  rcases List.mem_append.mp member with early | rest
  · right
    exact ⟨List.mem_append_left _ early,
      parts.2.2 _ (List.mem_map_of_mem early) _ List.mem_cons_self⟩
  · rcases List.mem_cons.mp rest with same | late
    · exact .inl same
    · right
      refine ⟨List.mem_append_right _ (List.mem_cons_of_mem _ late), fun same => ?_⟩
      exact (List.nodup_cons.mp parts.2.1).1 (same ▸ List.mem_map_of_mem late)

theorem CallersApart.distinct_set (apart : CallersApart s) {caller : Nat} {w v : WriteCall}
    (stage : s.writers[caller]? = some w) (same : v.msg = w.msg) :
    ((s.writers.set caller v).map fun w => w.msg.addr).Nodup := by
  obtain ⟨first, last, split, replaced⟩ := split_of_set stage
  have distinct := apart.distinct
  rw [split] at distinct
  rw [replaced v]
  simpa only [List.map_append, List.map_cons, same] using distinct

/-- A call goes on to an action on the same side of the insertion. -/
theorem CallersApart.moved (apart : CallersApart s) {caller : Nat} {w v : WriteCall}
    (stage : s.writers[caller]? = some w) (same : v.msg = w.msg) (side : v.passed = w.passed)
    (allocated : next.allocated = s.allocated) (writers : next.writers = s.writers.set caller v)
    (registered : next.registered = s.registered) : CallersApart next := by
  have mem : w ∈ s.writers := List.mem_of_getElem? stage
  have others := apart.others stage v
  constructor
  · intro u member
    rw [writers] at member
    rw [allocated]
    rcases others u member with rfl | other
    · rw [same]
      exact apart.fresh w mem
    · exact apart.fresh u other.1
  · intro r member
    rw [registered] at member
    rw [allocated]
    exact apart.recorded r member
  · rw [writers]
    exact apart.distinct_set stage same
  · intro u member waiting r known
    rw [writers] at member
    rw [registered] at known
    rcases others u member with rfl | other
    · rw [same]
      exact apart.before w mem (side ▸ waiting) r known
    · exact apart.before u other.1 waiting r known
  · intro u member past
    rw [writers] at member
    have more : ∀ r ∈ s.registered, r ∈ next.registered := fun r known => by rwa [registered]
    rcases others u member with rfl | other
    · rw [same]
      exact (apart.behind w mem (side ▸ past)).mono more
    · exact (apart.behind u other.1 past).mono more

/-- The insertion registers its own message and no other. -/
theorem CallersApart.inserted (apart : CallersApart s) {caller : Nat} {m : Outgoing} {p : Ptr}
    (stage : s.writers[caller]? = some (.queued m)) {r : Registration} (addr : r.addr = m.addr)
    (reqId : r.reqId = m.reqId) (allocated : next.allocated = s.allocated + 1)
    (writers : next.writers = s.writers.set caller (.inserted m p))
    (registered : next.registered = r :: s.registered) : CallersApart next := by
  have mem : .queued m ∈ s.writers := List.mem_of_getElem? stage
  have fresh : m.addr < s.allocated := apart.fresh _ mem
  have others := apart.others stage (.inserted m p)
  constructor
  · intro u member
    rw [writers] at member
    rw [allocated]
    rcases others u member with rfl | other
    · exact Nat.lt_succ_of_lt fresh
    · exact Nat.lt_succ_of_lt (apart.fresh u other.1)
  · intro q member
    rw [registered] at member
    rw [allocated]
    rcases List.mem_cons.mp member with rfl | old
    · rw [addr]
      exact Nat.lt_succ_of_lt fresh
    · exact Nat.lt_succ_of_lt (apart.recorded q old)
  · rw [writers]
    exact apart.distinct_set stage rfl
  · intro u member waiting q known
    rw [writers] at member
    rw [registered] at known
    rcases others u member with rfl | other
    · cases waiting
    · rcases List.mem_cons.mp known with rfl | old
      · rw [addr]
        exact fun same => other.2 same.symm
      · exact apart.before u other.1 waiting q old
  · intro u member past
    rw [writers] at member
    rcases others u member with rfl | other
    · exact ⟨r, by rw [registered]; exact List.mem_cons_self, addr, reqId⟩
    · refine (apart.behind u other.1 past).mono fun q known => ?_
      rw [registered]
      exact List.mem_cons_of_mem _ known

theorem CallersApart.keep (apart : CallersApart s) (allocated : s.allocated ≤ next.allocated)
    (writers : ∀ w ∈ next.writers, w ∈ s.writers)
    (distinct : (next.writers.map fun w => w.msg.addr).Nodup)
    (registered : next.registered = s.registered) : CallersApart next where
  fresh w member := Nat.lt_of_lt_of_le (apart.fresh w (writers w member)) allocated
  recorded r member := by
    rw [registered] at member
    exact Nat.lt_of_lt_of_le (apart.recorded r member) allocated
  distinct := distinct
  before w member waiting r known := by
    rw [registered] at known
    exact apart.before w (writers w member) waiting r known
  behind w member past :=
    (apart.behind w (writers w member) past).mono fun r known => by rwa [registered]

theorem CallersApart.step (apart : CallersApart s) (transition : Transition layout s event next) :
    CallersApart next := by
  cases transition with
  | begun msg msgL res built => exact apart.begun res _
  | pushed caller m stage mode => exact apart.moved (v := .queued m) stage rfl rfl rfl rfl rfl
  | unqueued caller m stage mode => exact apart.moved (v := .queued m) stage rfl rfl rfl rfl rfl
  | inserted caller m stage => exact apart.inserted stage rfl rfl rfl rfl rfl
  | armed caller m p stage => exact apart.moved (v := .armed m) stage rfl rfl rfl rfl rfl
  | returned caller m stage =>
    have shorter := (List.eraseIdx_sublist s.writers caller).map fun w => w.msg.addr
    exact apart.keep (Nat.le_refl _) (fun w member => List.mem_of_mem_eraseIdx member)
      (shorter.nodup apart.distinct) rfl
  | headUnknown index op head readMsg link start done opened kind unknown buffer reading =>
    exact apart.keep (Nat.le_succ _) (fun _ member => member) apart.distinct rfl
  | connectOk index op link erased start done reading erases =>
    rw [erases.rest]
    exact apart.keep (Nat.le_refl _) (fun _ member => member) apart.distinct rfl
  | erased error timer after moved erases =>
    rw [erases.rest]
    exact apart.keep (Nat.le_refl _) (fun _ member => member) apart.distinct rfl
  | _ => exact apart.keep (Nat.le_refl _) (fun _ member => member) apart.distinct rfl

/-! ### Messages on their way -/

/-- The message is registered, or its caller is about to do it. -/
def Accounted (s : ClientLoop) (m : Outgoing) : Prop := Registered s m ∨ .queued m ∈ s.writers

theorem registered_step (transition : Transition layout s event next) {m : Outgoing}
    (known : Registered s m) : Registered next m := by
  cases transition with
  | inserted caller other stage => exact known.mono fun r member => List.mem_cons_of_mem _ member
  | connectOk index op link erased start done reading erases =>
    exact known.mono fun r member => by rw [erases.rest]; exact member
  | erased error timer after moved erases =>
    exact known.mono fun r member => by rw [erases.rest]; exact member
  | _ => exact known.mono fun r member => member

private theorem accounted_step (transition : Transition layout s event next) {m : Outgoing}
    (accounted : Accounted s m) : Accounted next m := by
  rcases accounted with known | waiting
  · exact .inl (registered_step transition known)
  · cases transition with
    | begun msg msgL res built => exact .inr (List.mem_append_left _ waiting)
    | pushed caller other stage mode =>
      exact .inr (mem_set_of_ne stage waiting (by simp))
    | unqueued caller other stage mode =>
      exact .inr (mem_set_of_ne stage waiting (by simp))
    | inserted caller other stage =>
      by_cases same : m = other
      · subst same
        exact .inl ⟨_, List.mem_cons_self, rfl, rfl⟩
      · exact .inr (mem_set_of_ne stage waiting (by simpa using same))
    | armed caller other p stage => exact .inr (mem_set_of_ne stage waiting (by simp))
    | returned caller other stage => exact .inr (mem_eraseIdx_of_ne stage waiting (by simp))
    | connectOk index op link erased start done reading erases =>
      exact .inr (by rw [erases.rest]; exact waiting)
    | erased error timer after moved erases =>
      exact .inr (by rw [erases.rest]; exact waiting)
    | _ => exact .inr waiting

/-- Every queued message is registered or about to be, and every message posted
or handed to `async_write` is registered. -/
structure SentRegistered (s : ClientLoop) : Prop where
  queue : ∀ m ∈ s.writeMsgQueue.items, Accounted s m
  posted : ∀ m, .doWriteMsg m ∈ s.posted → Registered s m
  handed : ∀ m ∈ s.handed, Registered s m

theorem SentRegistered.initial (csq : ClientSendQueue) : SentRegistered (start csq) where
  queue _ member := by cases member
  posted _ member := by cases member
  handed _ member := by cases member

private theorem queue_step (transition : Transition layout s event next) {m : Outgoing}
    (member : m ∈ next.writeMsgQueue.items) :
    m ∈ s.writeMsgQueue.items ∨ .queued m ∈ next.writers := by
  cases transition with
  | pushed caller other stage mode =>
    rcases List.mem_append.mp member with old | new
    · exact .inl old
    · rw [List.mem_singleton.mp new]
      exact .inr (List.mem_set (List.getElem?_eq_some_iff.mp stage).1 _)
  | writeNext index op other queue link start done opened mode status popped writing =>
    rw [(SafeQueue.pop_eq_some popped).1]
    exact .inl (List.mem_cons_of_mem _ member)
  | postedNext index other queue link queued status popped writing =>
    rw [(SafeQueue.pop_eq_some popped).1]
    exact .inl (List.mem_cons_of_mem _ member)
  | connectOk index op link erased start done reading erases =>
    rw [erases.rest] at member
    exact .inl member
  | erased error timer after moved erases =>
    rw [erases.rest] at member
    exact .inl member
  | _ => exact .inl member

private theorem posted_step (transition : Transition layout s event next) {m : Outgoing}
    (member : .doWriteMsg m ∈ next.posted) : .doWriteMsg m ∈ s.posted ∨ .armed m ∈ s.writers := by
  cases transition with
  | returned caller other stage =>
    rcases List.mem_append.mp member with old | new
    · exact .inl old
    · have posted := List.mem_singleton.mp new
      split at posted
      · cases posted
      · cases posted
        exact .inr (List.mem_of_getElem? stage)
  | closeAsked =>
    rcases List.mem_append.mp member with old | new
    · exact .inl old
    · cases List.mem_singleton.mp new
  | postedQuiet => exact .inl (List.mem_of_mem_eraseIdx member)
  | postedNext => exact .inl (List.mem_of_mem_eraseIdx member)
  | postedMsg => exact .inl (List.mem_of_mem_eraseIdx member)
  | postedClose => exact .inl (List.mem_of_mem_eraseIdx member)
  | connectOk index op link erased start done reading erases =>
    rw [erases.rest] at member
    exact .inl member
  | erased error timer after moved erases =>
    rw [erases.rest] at member
    exact .inl member
  | _ => exact .inl member

private theorem sends_registered (sent : SentRegistered s) (guarded : SendsRegistered s event next)
    {m : Outgoing} (sending : sends s event = some m) : Registered s m := by
  rcases sends_source sending with queued | posted
  · rcases sent.queue m queued with known | waiting
    · exact known
    · exact absurd waiting (guarded m sending)
  · exact sent.posted m posted

theorem SentRegistered.step (sent : SentRegistered s) (apart : CallersApart s)
    (early : Operation.Early s.link.attempt s.link.writes)
    (transition : Transition layout s event next) (guarded : SendsRegistered s event next) :
    SentRegistered next where
  queue m member := by
    rcases queue_step transition member with old | new
    · exact accounted_step transition (sent.queue m old)
    · exact .inr new
  posted m member := by
    apply registered_step transition
    rcases posted_step transition member with old | armed
    · exact sent.posted m old
    · exact apart.behind _ armed rfl
  handed m member := by
    apply registered_step transition
    rcases sends_cases transition early with ⟨_, same, _⟩ | ⟨last, _, sending, same, _⟩
    · rw [same] at member
      exact sent.handed m member
    · rw [same] at member
      rcases List.mem_append.mp member with old | new
      · exact sent.handed m old
      · rw [List.mem_singleton.mp new]
        exact sends_registered sent guarded sending

/-! ### The result -/

/-- What runs keep in which nothing is sent before it is registered. -/
structure Booked (s : ClientLoop) : Prop where
  early : Operation.Early s.link.attempt s.link.writes
  entries : EntriesKept s
  callers : CallersApart s
  sent : SentRegistered s

theorem Booked.initial (csq : ClientSendQueue) : Booked (start csq) where
  early _ member := by cases member
  entries := .initial csq
  callers := .initial csq
  sent := .initial csq

theorem Booked.registeredFirst (booked : Booked s) : RegisteredFirst s where
  registered := booked.sent.handed
  found m member := by
    obtain ⟨r, known, _, reqId⟩ := booked.sent.handed m member
    cases newestFound : newest s m.reqId with
    | none =>
      have absent := List.find?_eq_none.mp newestFound r known
      simp [reqId] at absent
    | some latest => exact ⟨latest, rfl, booked.entries.kept _ _ newestFound⟩

/-- A message sent while its caller is about to insert the entry has none. -/
theorem Booked.gap (booked : Booked s) (transition : Transition layout s event next)
    (first : RegisteredFirst next) : SendsRegistered s event next := by
  intro m sending waiting
  rcases sends_cases transition booked.early with ⟨quiet, _⟩ | ⟨last, op, same, handed, _⟩
  · rw [quiet] at sending
    cases sending
  · cases same.symm.trans sending
    obtain ⟨r, member, addr, _⟩ := first.registered m (by rw [handed]; simp)
    -- a step that sends inserts no entry, so the registration is an old one
    have old : next.registered = s.registered := by
      cases transition with
      | inserted => cases sending
      | connectOk => cases sending
      | erased => cases sending
      | _ => rfl
    rw [old] at member
    exact booked.callers.before _ waiting rfl r member addr

/-- In both modes, every message is registered before it is sent, and a reply to
it finds the entry, throughout a run exactly when no step of the run sends a
message between its push and its insertion. -/
theorem registeredFirst_iff_sendsRegistered (layout : IntLayout) (csq : ClientSendQueue)
    (schedule : List Event) :
    (machine layout).Always RegisteredFirst (start csq) schedule ↔
      (machine layout).AllSteps SendsRegistered (start csq) schedule := by
  have keeps : ∀ {before label after}, Booked before →
      (machine layout).step before label = some after → SendsRegistered before label after →
        Booked after := by
    intro before label after booked taken guarded
    have transition := transition_of_step taken
    exact ⟨early_step transition booked.early, booked.entries.step transition,
      booked.callers.step transition,
      booked.sent.step booked.callers booked.early transition guarded⟩
  apply Machine.always_iff Booked
  · exact fun booked => booked.registeredFirst
  · intro before label after booked taken
    constructor
    · exact fun first => booked.gap (transition_of_step taken) first
    · exact fun guarded => (keeps booked taken guarded).registeredFirst
  · exact keeps
  · exact Booked.initial csq

/-- A second caller has pushed its message and not yet inserted the entry when
the first write completes. -/
def drained : List Event :=
  [.connected 0, .handleConnect 0 false, .beginWrite [some 7] 1, .push 0, .insert 0, .arm 0,
    .post 0, .runPosted 0, .beginWrite [some 8] 1, .push 0, .sent 0, .handleWrite 0 false]

/-- The completion of the first write sends the second message, which has no entry. -/
theorem drained_sends_unregistered :
    ¬ (machine .littleEndian).Always RegisteredFirst (start .on) drained := by
  intro always
  have outcome : ((machine .littleEndian).run (start .on) drained).map
      (fun s => (s.handed.map (·.addr), s.registered.map (·.addr))) = some ([0, 2], [0]) := by
    decide +kernel
  obtain ⟨final, reached, same⟩ := Option.map_eq_some_iff.mp outcome
  obtain ⟨handed, registered⟩ := Prod.mk.inj same
  obtain ⟨m, member, addr⟩ : ∃ m ∈ final.handed, m.addr = 2 := by
    have two : 2 ∈ final.handed.map (·.addr) := by simp [handed]
    exact List.mem_map.mp two
  obtain ⟨r, known, sameAddr, _⟩ := (always.final reached).registered m member
  have one : r.addr ∈ final.registered.map (·.addr) := List.mem_map_of_mem known
  rw [registered, sameAddr, addr] at one
  simp at one

end ClientLoop

end RpcLoop
