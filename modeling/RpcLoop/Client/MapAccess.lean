import RpcLoop.Client.Loop
import RpcLoop.Shared.SafeMap

/-! Accesses to `recv_msg_map_`, one call at a time. An entry is inserted in two
steps, and every access behind a `find` looks its key up again. -/

namespace RpcLoop

open Foundation Shared ClientLoop

/-- A call of `newMsgBuf`, by the access it makes next. -/
inductive MapWriter where
  | built (reqId : Int32) (p : Ptr)
  | assigning (ref : Nat) (p : Ptr)

/-- A call of `read` behind its `find`, by the action it takes next. -/
inductive MapReader where
  | found (reqId : Int32)
  | waiting (p : Ptr)
  | marked (p : Ptr)

/-- What the io thread is doing: `handle_read_header` behind its `find`, or a
round of the loop in `erase_msg_timer`. -/
inductive IoTask where
  | idle
  | headFound (head : RpcStructHead)
  | headSet (head : RpcStructHead)
  | erasing (i : Nat)
  | popped (i : Nat) (reqid : Int32)
  | found (i : Nat) (reqid : Int32)
  | exec (i : Nat) (reqid : Int32)
  | notExec (i : Nat) (reqid : Int32)
  | state (i : Nat) (reqid : Int32)
  | pushing (i : Nat) (reqid : Int32)
  deriving DecidableEq

structure MapClient where
  recvMsgMap : SafeMap Int32 Ptr
  entries : Ptr → RpcStruct
  allocated : Ptr
  msgIndex : Int32
  delReqidList : SafeQueue Int32
  writers : List MapWriter
  readers : List MapReader
  io : IoTask
  assigned : List Nat
  crashed : Bool

namespace MapClient

def start : MapClient where
  recvMsgMap := .empty
  entries _ := .new
  allocated := 0
  msgIndex := 1
  delReqidList := {}
  writers := []
  readers := []
  io := .idle
  assigned := []
  crashed := false

variable (layout : IntLayout)

def store (s : MapClient) (p : Ptr) (m : RpcStruct) : MapClient :=
  { s with entries := Function.update s.entries p m }

/-- `recv_msg_map_[reqId]->..`: following a null pointer ends the program. -/
def access (s : MapClient) (reqId : Int32) (use : MapClient → Ptr → Option MapClient) :
    Option MapClient :=
  let (ref, map) := s.recvMsgMap.subscript reqId
  match map.value ref with
  | none => some { s with recvMsgMap := map, crashed := true }
  | some p => use { s with recvMsgMap := map } p

/-- `newMsgBuf` up to the insertion: the id is taken and the entry built. -/
def build (s : MapClient) : MapClient :=
  { s with
    msgIndex := s.msgIndex + 1
    entries := Function.update s.entries s.allocated (recvEntry s.msgIndex)
    allocated := s.allocated + 1
    writers := s.writers ++ [.built s.msgIndex s.allocated] }

/-- The call of `operator[]` in `recv_msg_map_[head.req_id()]=recv`. -/
def subscript (s : MapClient) (caller : Nat) : Option MapClient :=
  match s.writers[caller]? with
  | some (.built reqId p) =>
    let (ref, map) := s.recvMsgMap.subscript reqId
    some { s with
      recvMsgMap := map
      writers := s.writers.set caller (.assigning ref p) }
  | _ => none

/-- Its assignment. -/
def assign (s : MapClient) (caller : Nat) : Option MapClient :=
  match s.writers[caller]? with
  | some (.assigning ref p) =>
    some { s with
      recvMsgMap := s.recvMsgMap.assign ref p
      writers := s.writers.eraseIdx caller
      assigned := ref :: s.assigned }
  | _ => none

/-- `read(reqid)` up to the result of its `find`. -/
def find (s : MapClient) (reqId : Int32) : MapClient :=
  if s.recvMsgMap.has reqId then { s with readers := s.readers ++ [.found reqId] } else s

/-- `RPCStruct_ptr res =recv_msg_map_[reqid]`, whose header is logged next. -/
def lookUp (s : MapClient) (caller : Nat) : Option MapClient :=
  match s.readers[caller]? with
  | some (.found reqId) =>
    s.access reqId fun s p => some { s with readers := s.readers.set caller (.waiting p) }
  | _ => none

/-- The status loop of `read` ends: the entry is marked for deletion. -/
def mark (s : MapClient) (caller : Nat) : Option MapClient :=
  match s.readers[caller]? with
  | some (.waiting p) =>
    let res := s.entries p
    if res.status = .error ∨ res.status = .readOk ∨ res.status = .timeout then
      some { s.store p { res with eraseFlag := .eraseState } with
        readers := s.readers.set caller (.marked p) }
    else none
  | _ => none

/-- The push on `del_reqid_list`, after which `read` returns. -/
def list (s : MapClient) (caller : Nat) : Option MapClient :=
  match s.readers[caller]? with
  | some (.marked p) =>
    some { s with
      delReqidList := s.delReqidList.push (s.entries p).headInfo.reqId
      readers := s.readers.eraseIdx caller }
  | _ => none

/-- `handle_read_header` up to the result of its `find`. -/
def header (s : MapClient) (head : RpcStructHead) : Option MapClient :=
  match s.io with
  | .idle => some (if s.recvMsgMap.has head.reqId then { s with io := .headFound head } else s)
  | _ => none

/-- `erase_msg_timer` starts. -/
def eraseMsgTimer (s : MapClient) : Option MapClient :=
  match s.io with
  | .idle => some { s with io := .erasing 0 }
  | _ => none

/-- The next action of the io thread. -/
def ioStep (s : MapClient) : Option MapClient :=
  match s.io with
  | .idle => none
  | .headFound head =>
    s.access head.reqId fun s p => do
      let known ← ((s.entries p).setHead layout head).toOption
      return { s.store p known with io := .headSet head }
  | .headSet head =>
    s.access head.reqId fun s p => do
      let readMsg ← ((s.entries p).recvMsgBuff layout).toOption
      return { s.store p readMsg with io := .idle }
  | .erasing i =>
    if i < s.delReqidList.size then
      s.delReqidList.pop.map fun (reqid, list) =>
        { s with delReqidList := list, io := .popped i reqid }
    else some { s with io := .idle }
  | .popped i reqid =>
    some { s with io := if s.recvMsgMap.has reqid then .found i reqid else .erasing (i + 1) }
  | .found i reqid =>
    s.access reqid fun s p =>
      some { s with
        io := if (s.entries p).eraseFlag = .eraseExec then .exec i reqid else .notExec i reqid }
  | .exec i reqid =>
    some { s with recvMsgMap := s.recvMsgMap.erase reqid, io := .erasing (i + 1) }
  | .notExec i reqid =>
    s.access reqid fun s p =>
      some { s with
        io := if (s.entries p).eraseFlag = .eraseState then .state i reqid else .pushing i reqid }
  | .state i reqid =>
    s.access reqid fun s p =>
      some { s.store p { s.entries p with eraseFlag := .eraseExec } with io := .pushing i reqid }
  | .pushing i reqid =>
    some { s with delReqidList := s.delReqidList.push reqid, io := .erasing (i + 1) }

/-- The actions of callers and of the io thread; a reply, an error or a timeout
changes the status of an entry at any time. -/
inductive Event where
  | build
  | subscript (caller : Nat)
  | assign (caller : Nat)
  | find (reqId : Int32)
  | lookUp (caller : Nat)
  | mark (caller : Nat)
  | list (caller : Nat)
  | header (head : RpcStructHead)
  | eraseMsgTimer
  | io
  | status (p : Ptr) (v : ClientStatusType)

def step (s : MapClient) (event : Event) : Option MapClient :=
  if s.crashed then none
  else
    match event with
    | .build => some s.build
    | .subscript caller => s.subscript caller
    | .assign caller => s.assign caller
    | .find reqId => some (s.find reqId)
    | .lookUp caller => s.lookUp caller
    | .mark caller => s.mark caller
    | .list caller => s.list caller
    | .header head => s.header head
    | .eraseMsgTimer => s.eraseMsgTimer
    | .io => s.ioStep layout
    | .status p v => some (s.store p ((s.entries p).setStatus v))

def machine : Machine MapClient Event where
  step := step layout

/-- No access has met a null pointer, and every key without a message has a call
of `newMsgBuf` that is about to assign it. -/
structure NeverNull (s : MapClient) : Prop where
  running : s.crashed = false
  keys : ∀ reqId ref, s.recvMsgMap.slot reqId = some ref → s.recvMsgMap.value ref = none →
    ∃ p, .assigning ref p ∈ s.writers

/-- The insertion of the key is complete, and the key has not been erased since. -/
def Inserted (s : MapClient) (reqId : Int32) : Prop :=
  ∃ ref, s.recvMsgMap.slot reqId = some ref ∧ ref ∈ s.assigned

/-- A reader looks up its key while it is in the map and not between the two steps
of its insertion; the first access of a handler on the io thread is not between
them either. -/
def BehindInsertion (s : MapClient) (event : Event) (_ : MapClient) : Prop :=
  match event with
  | .lookUp caller => ∀ reqId, s.readers[caller]? = some (.found reqId) → s.Inserted reqId
  | .io =>
    match s.io with
    | .headFound head => ∀ ref, s.recvMsgMap.slot head.reqId = some ref → ref ∈ s.assigned
    | .found _ reqid => ∀ ref, s.recvMsgMap.slot reqid = some ref → ref ∈ s.assigned
    | _ => True
  | _ => True

/-- What the io thread knows about the key it works on. -/
def Knows (s : MapClient) : IoTask → Prop
  | .headFound head => s.recvMsgMap.has head.reqId
  | .headSet head => s.Inserted head.reqId
  | .found _ reqid => s.recvMsgMap.has reqid
  | .exec _ reqid => s.Inserted reqid
  | .notExec _ reqid => s.Inserted reqid
  | .state _ reqid => s.Inserted reqid
  | _ => True

/-- What such runs keep: a slot has a message exactly when it was assigned, and
only the io thread takes a key away. -/
structure Sound (s : MapClient) : Prop where
  running : s.crashed = false
  value : ∀ ref, ref < s.recvMsgMap.next → ((s.recvMsgMap.value ref).isSome ↔ ref ∈ s.assigned)
  old : ∀ ref ∈ s.assigned, ref < s.recvMsgMap.next
  writers : ∀ ref p, .assigning ref p ∈ s.writers → ref < s.recvMsgMap.next
  keys : ∀ reqId ref, s.recvMsgMap.slot reqId = some ref → ref ∉ s.assigned →
    ∃ p, .assigning ref p ∈ s.writers
  io : s.Knows s.io

variable {layout : IntLayout} {s next : MapClient} {event : Event}

theorem Sound.initial : Sound start where
  running := rfl
  value ref small := absurd small (Nat.not_lt_zero ref)
  old ref member := by cases member
  writers ref p member := by cases member
  keys reqId ref found := by cases found
  io := trivial

theorem Sound.neverNull (sound : Sound s) : NeverNull s where
  running := sound.running
  keys reqId ref found null := by
    refine sound.keys reqId ref found fun assigned => ?_
    have some := (sound.value ref (s.recvMsgMap.old reqId ref found)).mpr assigned
    simp [null] at some

theorem Sound.value_of_inserted (sound : Sound s) {reqId : Int32} (inserted : s.Inserted reqId) :
    ∃ ref p, s.recvMsgMap.slot reqId = some ref ∧ s.recvMsgMap.value ref = some p := by
  obtain ⟨ref, found, assigned⟩ := inserted
  obtain ⟨p, held⟩ := Option.isSome_iff_exists.mp
    ((sound.value ref (s.recvMsgMap.old reqId ref found)).mpr assigned)
  exact ⟨ref, p, found, held⟩

/-- An access behind a complete insertion finds the message and changes nothing. -/
theorem Sound.access_inserted (sound : Sound s) {reqId : Int32} (inserted : s.Inserted reqId)
    (use : MapClient → Ptr → Option MapClient) : ∃ p, s.access reqId use = use s p := by
  obtain ⟨ref, p, found, held⟩ := sound.value_of_inserted inserted
  exact ⟨p, by simp [access, SafeMap.subscript_of_slot found, held]⟩

theorem Sound.access_null (sound : Sound s) {reqId : Int32} (missing : ¬ s.Inserted reqId)
    (use : MapClient → Ptr → Option MapClient) :
    ∃ after, s.access reqId use = some after ∧ after.crashed = true := by
  cases found : s.recvMsgMap.slot reqId with
  | none => exact ⟨_, by simp [access, SafeMap.subscript_of_none found]; rfl, rfl⟩
  | some ref =>
    have null : s.recvMsgMap.value ref = none := by
      cases held : s.recvMsgMap.value ref with
      | none => rfl
      | some p =>
        have assigned := (sound.value ref (s.recvMsgMap.old reqId ref found)).mp (by simp [held])
        exact absurd ⟨ref, found, assigned⟩ missing
    exact ⟨_, by simp [access, SafeMap.subscript_of_slot found, null]; rfl, rfl⟩

/-- Whatever else happens, the io thread's key stays in the map. -/
theorem Knows.mono {task : IoTask} (known : s.Knows task)
    (slot : ∀ reqId ref, s.recvMsgMap.slot reqId = some ref →
      next.recvMsgMap.slot reqId = some ref)
    (assigned : ∀ ref ∈ s.assigned, ref ∈ next.assigned) : next.Knows task := by
  have has : ∀ reqId, s.recvMsgMap.has reqId = true → next.recvMsgMap.has reqId = true := by
    intro reqId present
    obtain ⟨ref, found⟩ := Option.isSome_iff_exists.mp present
    exact Option.isSome_iff_exists.mpr ⟨ref, slot reqId ref found⟩
  have inserted : ∀ reqId, s.Inserted reqId → next.Inserted reqId := by
    rintro reqId ⟨ref, found, member⟩
    exact ⟨ref, slot reqId ref found, assigned ref member⟩
  cases task with
  | headFound head => exact has _ known
  | found i reqid => exact has _ known
  | headSet head => exact inserted _ known
  | exec i reqid => exact inserted _ known
  | notExec i reqid => exact inserted _ known
  | state i reqid => exact inserted _ known
  | _ => trivial

/-- Steps that leave the map alone. -/
theorem Sound.keep (sound : Sound s) (map : next.recvMsgMap = s.recvMsgMap)
    (assigned : next.assigned = s.assigned) (running : next.crashed = s.crashed)
    (writers : ∀ ref p, .assigning ref p ∈ next.writers ↔ .assigning ref p ∈ s.writers)
    (io : s.Knows next.io) : Sound next where
  running := running.trans sound.running
  value ref small := by
    rw [map] at small ⊢
    rw [assigned]
    exact sound.value ref small
  old ref member := by
    rw [assigned] at member
    rw [map]
    exact sound.old ref member
  writers ref p member := by
    rw [map]
    exact sound.writers ref p ((writers ref p).mp member)
  keys reqId ref found missing := by
    rw [map] at found
    rw [assigned] at missing
    obtain ⟨p, member⟩ := sound.keys reqId ref found missing
    exact ⟨p, (writers ref p).mpr member⟩
  io := io.mono (fun _ _ found => by rw [map, found]) fun _ member => by rwa [assigned]

theorem Sound.build (sound : Sound s) : Sound s.build :=
  sound.keep rfl rfl rfl (fun ref p => by simp [MapClient.build]) sound.io

theorem Sound.subscript_slot (sound : Sound s) {caller : Nat} {reqId : Int32} {p : Ptr} {ref : Nat}
    (stage : s.writers[caller]? = some (.built reqId p))
    (found : s.recvMsgMap.slot reqId = some ref) :
    Sound { s with writers := s.writers.set caller (.assigning ref p) } := by
  refine ⟨sound.running, sound.value, sound.old, ?_, ?_, sound.io⟩
  · intro other q member
    rcases List.mem_or_eq_of_mem_set member with known | same
    · exact sound.writers other q known
    · cases same
      exact s.recvMsgMap.old reqId ref found
  · intro key other present missing
    obtain ⟨q, member⟩ := sound.keys key other present missing
    exact ⟨q, mem_set_of_ne stage member (by simp)⟩

theorem Sound.subscript_new (sound : Sound s) {caller : Nat} {reqId : Int32} {p : Ptr}
    (stage : s.writers[caller]? = some (.built reqId p))
    (absent : s.recvMsgMap.slot reqId = none) :
    Sound { s with
      recvMsgMap := s.recvMsgMap.insertNull reqId
      writers := s.writers.set caller (.assigning s.recvMsgMap.next p) } := by
  have small : s.recvMsgMap.next < (s.recvMsgMap.insertNull reqId).next := Nat.lt_succ_self _
  refine ⟨sound.running, ?_, ?_, ?_, ?_, ?_⟩
  · intro ref less
    by_cases new : ref = s.recvMsgMap.next
    · subst new
      have fresh : s.recvMsgMap.next ∉ s.assigned :=
        fun member => Nat.lt_irrefl _ (sound.old _ member)
      simp [fresh]
    · have older : ref < s.recvMsgMap.next := Nat.lt_of_le_of_ne (Nat.lt_succ_iff.mp less) new
      rw [SafeMap.value_insertNull_of_lt older]
      exact sound.value ref older
  · exact fun ref member => Nat.lt_trans (sound.old ref member) small
  · intro ref q member
    rcases List.mem_or_eq_of_mem_set member with known | same
    · exact Nat.lt_trans (sound.writers ref q known) small
    · cases same
      exact small
  · intro key ref present missing
    by_cases same : key = reqId
    · subst same
      simp only [SafeMap.slot_insertNull_self, Option.some.injEq] at present
      subst present
      obtain ⟨before, after, split, replaced⟩ := split_of_set stage
      exact ⟨p, by rw [replaced]; simp⟩
    · rw [SafeMap.slot_insertNull_of_ne same] at present
      obtain ⟨q, member⟩ := sound.keys key ref present missing
      exact ⟨q, mem_set_of_ne stage member (by simp)⟩
  · exact Knows.mono sound.io (fun _ _ => SafeMap.slot_insertNull_of_slot absent)
      fun _ member => member

theorem Sound.subscript (sound : Sound s) {caller : Nat} (taken : s.subscript caller = some next) :
    Sound next := by
  unfold MapClient.subscript at taken
  split at taken
  · rename_i reqId p stage
    cases found : s.recvMsgMap.slot reqId with
    | some ref =>
      simp only [SafeMap.subscript_of_slot found, Option.some.injEq] at taken
      subst taken
      exact sound.subscript_slot stage found
    | none =>
      simp only [SafeMap.subscript_of_none found, Option.some.injEq] at taken
      subst taken
      exact sound.subscript_new stage found
  · cases taken

theorem Sound.assign (sound : Sound s) {caller : Nat} (taken : s.assign caller = some next) :
    Sound next := by
  unfold MapClient.assign at taken
  split at taken
  · rename_i ref p stage
    simp only [Option.some.injEq] at taken
    subst taken
    refine ⟨sound.running, ?_, ?_, ?_, ?_, ?_⟩
    · intro other less
      by_cases same : other = ref
      · subst same
        simp [SafeMap.assign]
      · simpa [SafeMap.assign, same] using sound.value other less
    · intro other member
      rcases List.mem_cons.mp member with rfl | known
      · exact sound.writers other p (List.mem_of_getElem? stage)
      · exact sound.old other known
    · exact fun other q member => sound.writers other q (List.mem_of_mem_eraseIdx member)
    · intro key other present missing
      obtain ⟨q, member⟩ := sound.keys key other present fun known =>
        missing (List.mem_cons_of_mem _ known)
      refine ⟨q, mem_eraseIdx_of_ne stage member fun same => ?_⟩
      cases same
      exact missing List.mem_cons_self
    · exact Knows.mono sound.io (fun _ _ present => present)
        fun _ member => List.mem_cons_of_mem _ member
  · cases taken

theorem Sound.mark (sound : Sound s) {caller : Nat} (taken : s.mark caller = some next) :
    Sound next := by
  unfold MapClient.mark at taken
  split at taken
  · dsimp only at taken
    split at taken
    · cases taken
      exact sound.keep rfl rfl rfl (fun _ _ => Iff.rfl) sound.io
    · cases taken
  · cases taken

theorem Sound.list (sound : Sound s) {caller : Nat} (taken : s.list caller = some next) :
    Sound next := by
  unfold MapClient.list at taken
  split at taken
  · cases taken
    exact sound.keep rfl rfl rfl (fun _ _ => Iff.rfl) sound.io
  · cases taken

theorem Sound.header (sound : Sound s) {head : RpcStructHead} (taken : s.header head = some next) :
    Sound next := by
  unfold MapClient.header at taken
  split at taken
  · split at taken
    · rename_i present
      cases taken
      exact sound.keep rfl rfl rfl (fun _ _ => Iff.rfl) present
    · cases taken
      exact sound
  · cases taken

theorem Sound.eraseMsgTimer (sound : Sound s) (taken : s.eraseMsgTimer = some next) :
    Sound next := by
  unfold MapClient.eraseMsgTimer at taken
  split at taken
  · cases taken
    exact sound.keep rfl rfl rfl (fun _ _ => Iff.rfl) trivial
  · cases taken

/-- An access keeps everything exactly when its key is inserted. -/
theorem Sound.accessed (sound : Sound s) {reqId : Int32}
    {use : MapClient → Ptr → Option MapClient} (taken : s.access reqId use = some next)
    (keeps : ∀ p, use s p = some next → s.Inserted reqId → Sound next) :
    (s.Inserted reqId → Sound next) ∧ (next.crashed = false → s.Inserted reqId) := by
  constructor
  · intro inserted
    obtain ⟨p, same⟩ := sound.access_inserted inserted use
    exact keeps p (same.symm.trans taken) inserted
  · intro running
    apply Classical.byContradiction
    intro missing
    obtain ⟨after, same, crashed⟩ := sound.access_null missing use
    cases same.symm.trans taken
    rw [crashed] at running
    cases running

theorem Sound.lookUp (sound : Sound s) {caller : Nat} (taken : s.lookUp caller = some next) :
    (BehindInsertion s (.lookUp caller) next → Sound next) ∧
      (next.crashed = false → BehindInsertion s (.lookUp caller) next) := by
  unfold MapClient.lookUp at taken
  split at taken
  · rename_i reqId stage
    have both := sound.accessed taken fun p used inserted => by
      cases used
      exact sound.keep rfl rfl rfl (fun _ _ => Iff.rfl) sound.io
    constructor
    · exact fun behind => both.1 (behind reqId stage)
    · intro running other same
      cases stage.symm.trans same
      exact both.2 running
  · cases taken

private theorem inserted_iff {reqId : Int32} (has : s.recvMsgMap.has reqId = true) :
    s.Inserted reqId ↔ ∀ ref, s.recvMsgMap.slot reqId = some ref → ref ∈ s.assigned := by
  constructor
  · rintro ⟨ref, found, assigned⟩ other same
    cases found.symm.trans same
    exact assigned
  · intro behind
    obtain ⟨ref, found⟩ := Option.isSome_iff_exists.mp has
    exact ⟨ref, found, behind ref found⟩

theorem Sound.again (sound : Sound s) {reqId : Int32} (inserted : s.Inserted reqId)
    {use : MapClient → Ptr → Option MapClient} (taken : s.access reqId use = some next)
    (keeps : ∀ p, use s p = some next → Sound next) : Sound next :=
  (sound.accessed taken fun p used _ => keeps p used).1 inserted

theorem Sound.erase (sound : Sound s) {i : Nat} {reqid : Int32} :
    Sound { s with recvMsgMap := s.recvMsgMap.erase reqid, io := .erasing i } := by
  refine ⟨sound.running, sound.value, sound.old, sound.writers, ?_, trivial⟩
  exact fun key ref found missing => sound.keys key ref (SafeMap.slot_of_erase found) missing

theorem Sound.ioStep_first (sound : Sound s) (taken : s.ioStep layout = some next)
    (first : (∃ head, s.io = .headFound head) ∨ ∃ i reqid, s.io = .found i reqid) :
    (BehindInsertion s .io next → Sound next) ∧
      (next.crashed = false → BehindInsertion s .io next) := by
  have knows := sound.io
  unfold MapClient.ioStep at taken
  unfold BehindInsertion
  rcases first with ⟨head, task⟩ | ⟨i, reqid, task⟩
  · simp only [task] at taken knows ⊢
    rw [← inserted_iff knows]
    refine sound.accessed taken fun p used inserted => ?_
    simp only [Option.bind_eq_bind, Option.bind_eq_some_iff, Option.pure_def] at used
    obtain ⟨known, _, same⟩ := used
    cases same
    exact sound.keep rfl rfl rfl (fun _ _ => Iff.rfl) inserted
  · simp only [task] at taken knows ⊢
    rw [← inserted_iff knows]
    refine sound.accessed taken fun p used inserted => ?_
    cases used
    refine sound.keep rfl rfl rfl (fun _ _ => Iff.rfl) ?_
    dsimp only
    split
    · exact inserted
    · exact inserted

theorem Sound.ioStep_later (sound : Sound s) (taken : s.ioStep layout = some next)
    (head : ∀ head, s.io ≠ .headFound head) (found : ∀ i reqid, s.io ≠ .found i reqid) :
    Sound next := by
  have knows := sound.io
  unfold MapClient.ioStep at taken
  cases task : s.io with
  | idle => simp [task] at taken
  | headFound t => exact absurd task (head t)
  | found i reqid => exact absurd task (found i reqid)
  | headSet t =>
    simp only [task] at taken knows
    refine sound.again knows taken fun p used => ?_
    simp only [Option.bind_eq_bind, Option.bind_eq_some_iff, Option.pure_def] at used
    obtain ⟨readMsg, _, same⟩ := used
    cases same
    exact sound.keep rfl rfl rfl (fun _ _ => Iff.rfl) trivial
  | erasing i =>
    simp only [task] at taken
    split at taken
    · obtain ⟨pair, _, same⟩ := Option.map_eq_some_iff.mp taken
      cases same
      exact sound.keep rfl rfl rfl (fun _ _ => Iff.rfl) trivial
    · cases taken
      exact sound.keep rfl rfl rfl (fun _ _ => Iff.rfl) trivial
  | popped i reqid =>
    simp only [task] at taken
    cases taken
    refine sound.keep rfl rfl rfl (fun _ _ => Iff.rfl) ?_
    dsimp only
    split
    · assumption
    · trivial
  | exec i reqid =>
    simp only [task] at taken
    cases taken
    exact sound.erase
  | notExec i reqid =>
    simp only [task] at taken knows
    refine sound.again knows taken fun p used => ?_
    cases used
    refine sound.keep rfl rfl rfl (fun _ _ => Iff.rfl) ?_
    dsimp only
    split
    · exact knows
    · trivial
  | state i reqid =>
    simp only [task] at taken knows
    refine sound.again knows taken fun p used => ?_
    cases used
    exact sound.keep rfl rfl rfl (fun _ _ => Iff.rfl) trivial
  | pushing i reqid =>
    simp only [task] at taken
    cases taken
    exact sound.keep rfl rfl rfl (fun _ _ => Iff.rfl) trivial

theorem Sound.ioStep (sound : Sound s) (taken : s.ioStep layout = some next) :
    (BehindInsertion s .io next → Sound next) ∧
      (next.crashed = false → BehindInsertion s .io next) := by
  by_cases first : (∃ head, s.io = .headFound head) ∨ ∃ i reqid, s.io = .found i reqid
  · exact sound.ioStep_first taken first
  · have head : ∀ head, s.io ≠ .headFound head := fun head task => first (.inl ⟨head, task⟩)
    have found : ∀ i reqid, s.io ≠ .found i reqid := fun i reqid task =>
      first (.inr ⟨i, reqid, task⟩)
    refine ⟨fun _ => sound.ioStep_later taken head found, fun _ => ?_⟩
    unfold BehindInsertion
    dsimp only
    split
    · rename_i t task
      exact absurd task (head t)
    · rename_i i reqid task
      exact absurd task (found i reqid)
    · trivial

theorem Sound.step (sound : Sound s) (taken : MapClient.step layout s event = some next) :
    (BehindInsertion s event next → Sound next) ∧
      (next.crashed = false → BehindInsertion s event next) := by
  simp only [MapClient.step, sound.running, Bool.false_eq_true, if_false] at taken
  cases event with
  | build =>
    cases taken
    exact ⟨fun _ => sound.build, fun _ => trivial⟩
  | subscript caller => exact ⟨fun _ => sound.subscript taken, fun _ => trivial⟩
  | assign caller => exact ⟨fun _ => sound.assign taken, fun _ => trivial⟩
  | find reqId =>
    cases taken
    refine ⟨fun _ => ?_, fun _ => trivial⟩
    unfold MapClient.find
    split
    · exact sound.keep rfl rfl rfl (fun _ _ => Iff.rfl) sound.io
    · exact sound
  | lookUp caller => exact sound.lookUp taken
  | mark caller => exact ⟨fun _ => sound.mark taken, fun _ => trivial⟩
  | list caller => exact ⟨fun _ => sound.list taken, fun _ => trivial⟩
  | header head => exact ⟨fun _ => sound.header taken, fun _ => trivial⟩
  | eraseMsgTimer => exact ⟨fun _ => sound.eraseMsgTimer taken, fun _ => trivial⟩
  | io => exact sound.ioStep taken
  | status p v =>
    cases taken
    exact ⟨fun _ => sound.keep rfl rfl rfl (fun _ _ => Iff.rfl) sound.io, fun _ => trivial⟩

/-- The map exposes no null pointer throughout a run exactly when every access
that could meet one is behind a complete insertion. -/
theorem neverNull_iff_behindInsertion (layout : IntLayout) (schedule : List Event) :
    (machine layout).Always NeverNull start schedule ↔
      (machine layout).AllSteps BehindInsertion start schedule := by
  apply Machine.always_iff Sound
  · exact fun sound => sound.neverNull
  · intro before event after sound taken
    have both := sound.step taken
    exact ⟨fun safe => both.2 safe.running, fun behind => (both.1 behind).neverNull⟩
  · exact fun sound taken behind => (sound.step taken).1 behind
  · exact .initial

/-- A header arrives between the two steps of the insertion of its id. -/
def earlyHeader : List Event :=
  [.build, .subscript 0, .header (requestHead 1 0), .io]

/-- Two reads of one id; the entry is erased between the `find` and the lookup of
the second one. -/
def lateReader : List Event :=
  [.build, .subscript 0, .assign 0, .status 0 .readOk, .find 1, .find 1, .lookUp 0, .mark 0,
    .list 0, .eraseMsgTimer, .io, .io, .io, .io, .io, .io, .io, .eraseMsgTimer, .io, .io, .io,
    .io, .lookUp 0]

/-- The access of either run meets a null pointer. -/
theorem accesses_meet_null :
    ¬ (machine .littleEndian).Always NeverNull start earlyHeader ∧
      ¬ (machine .littleEndian).Always NeverNull start lateReader := by
  have crashes : ∀ schedule, ((machine .littleEndian).run start schedule).map (·.crashed) =
      some true → ¬ (machine .littleEndian).Always NeverNull start schedule := by
    intro schedule outcome always
    obtain ⟨final, reached, crashed⟩ := Option.map_eq_some_iff.mp outcome
    have running := (always.final reached).running
    rw [crashed] at running
    cases running
  exact ⟨crashes _ (by decide +kernel), crashes _ (by decide +kernel)⟩

end MapClient

end RpcLoop
