import RpcLoop.Client.MapAccess

/-! Whose entry stands under an id. Every call of `newMsgBuf` builds one of its own
and assigns it once, so no two ids ever share an entry. -/

namespace RpcLoop

open Foundation Shared

/-- The entry that a call of `newMsgBuf` has built. -/
def MapWriter.entry : MapWriter → Ptr
  | .built _ p | .assigning _ p => p

namespace MapClient

/-- The entry of a key, if its slot holds one. -/
def entryAt (s : MapClient) (reqId : Int32) : Option Ptr :=
  (s.recvMsgMap.slot reqId).bind s.recvMsgMap.value

/-- Each id has an entry of its own. -/
def OwnEntries (s : MapClient) : Prop :=
  ∀ id other p, s.entryAt id = some p → s.entryAt other = some p → id = other

/-- The invariant: slots and entries are given out once. -/
structure Owned (map : SafeMap Int32 Ptr) (allocated : Ptr) (writers : List MapWriter) : Prop where
  slots : ∀ id other ref, map.slot id = some ref → map.slot other = some ref → id = other
  values : ∀ ref other p, map.value ref = some p → map.value other = some p → ref = other
  old : ∀ ref p, map.value ref = some p → p < allocated
  pending : ∀ w ∈ writers, w.entry < allocated ∧ ∀ ref, map.value ref ≠ some w.entry
  distinct : (writers.map MapWriter.entry).Nodup

def Owns (s : MapClient) : Prop := Owned s.recvMsgMap s.allocated s.writers

variable {layout : IntLayout} {s next : MapClient} {reqId key : Int32}
  {map : SafeMap Int32 Ptr} {allocated : Ptr} {writers : List MapWriter}

private theorem entryAt_insertNull (missing : s.recvMsgMap.slot reqId = none) (key : Int32) :
    ({ s with recvMsgMap := s.recvMsgMap.insertNull reqId } : MapClient).entryAt key =
      s.entryAt key := by
  by_cases same : key = reqId
  · subst same
    simp [entryAt, missing]
  · simp only [entryAt, SafeMap.slot_insertNull_of_ne same]
    cases found : s.recvMsgMap.slot key with
    | none => rfl
    | some ref =>
      exact SafeMap.value_insertNull_of_lt (s.recvMsgMap.old key ref found)

/-- What `erase` leaves was there before. -/
theorem entryAt_of_erase {id : Int32} {p : Ptr}
    (found : ({ s with recvMsgMap := s.recvMsgMap.erase reqId } : MapClient).entryAt id = some p) :
    s.entryAt id = some p := by
  obtain ⟨ref, slot, held⟩ := Option.bind_eq_some_iff.mp found
  exact Option.bind_eq_some_iff.mpr ⟨ref, SafeMap.slot_of_erase slot, held⟩

/-- An access uses the entry of its key, or ends the program and leaves the rest alone. -/
theorem access_cases {use : MapClient → Ptr → Option MapClient}
    (taken : s.access reqId use = some next) :
    (∃ p, s.entryAt reqId = some p ∧ use s p = some next) ∨
      s.entryAt reqId = none ∧ next.io = s.io ∧
        next.delReqidList.items = s.delReqidList.items ∧ next.entries = s.entries ∧
        ∀ key, next.entryAt key = s.entryAt key := by
  cases found : s.recvMsgMap.slot reqId with
  | none =>
    simp only [access, SafeMap.subscript_of_none found, SafeMap.value_insertNull_next,
      Option.some.injEq] at taken
    subst taken
    exact .inr ⟨by simp [entryAt, found], rfl, rfl, rfl, entryAt_insertNull found⟩
  | some ref =>
    simp only [access, SafeMap.subscript_of_slot found] at taken
    cases held : s.recvMsgMap.value ref with
    | none =>
      simp only [held, Option.some.injEq] at taken
      subst taken
      exact .inr ⟨by simp [entryAt, found, held], rfl, rfl, rfl, fun _ => rfl⟩
    | some p =>
      simp only [held] at taken
      exact .inl ⟨p, by simp [entryAt, found, held], taken⟩

theorem Owns.ownEntries (owned : s.Owns) : s.OwnEntries := by
  intro id other p found same
  obtain ⟨ref, slot, held⟩ := Option.bind_eq_some_iff.mp found
  obtain ⟨again, also, shared⟩ := Option.bind_eq_some_iff.mp same
  cases owned.values ref again p held shared
  exact owned.slots id other ref slot also

theorem Owned.insertNull (owned : Owned map allocated writers) (key : Int32) :
    Owned (map.insertNull key) allocated writers := by
  have older : ∀ ref p, (map.insertNull key).value ref = some p → map.value ref = some p := by
    intro ref p held
    by_cases new : ref = map.next
    · subst new
      rw [SafeMap.value_insertNull_next] at held
      cases held
    · simpa only [SafeMap.insertNull, Function.update_of_ne new] using held
  refine ⟨?_, ?_, ?_, ?_, owned.distinct⟩
  · intro id other ref slot same
    by_cases mine : id = key <;> by_cases yours : other = key
    · rw [mine, yours]
    · subst mine
      rw [SafeMap.slot_insertNull_self, Option.some.injEq] at slot
      rw [SafeMap.slot_insertNull_of_ne yours, ← slot] at same
      exact absurd (map.old other _ same) (Nat.lt_irrefl _)
    · subst yours
      rw [SafeMap.slot_insertNull_self, Option.some.injEq] at same
      rw [SafeMap.slot_insertNull_of_ne mine, ← same] at slot
      exact absurd (map.old id _ slot) (Nat.lt_irrefl _)
    · rw [SafeMap.slot_insertNull_of_ne mine] at slot
      rw [SafeMap.slot_insertNull_of_ne yours] at same
      exact owned.slots id other ref slot same
  · intro ref other p held same
    exact owned.values ref other p (older ref p held) (older other p same)
  · exact fun ref p held => owned.old ref p (older ref p held)
  · intro w member
    exact ⟨(owned.pending w member).1, fun ref held =>
      (owned.pending w member).2 ref (older ref w.entry held)⟩

theorem Owned.subscript (owned : Owned map allocated writers) (key : Int32) :
    Owned (map.subscript key).2 allocated writers := by
  cases found : map.slot key with
  | none =>
    rw [SafeMap.subscript_of_none found]
    exact owned.insertNull key
  | some ref =>
    rw [SafeMap.subscript_of_slot found]
    exact owned

theorem Owned.erase (owned : Owned map allocated writers) (key : Int32) :
    Owned (map.erase key) allocated writers where
  slots id other ref slot same :=
    owned.slots id other ref (SafeMap.slot_of_erase slot) (SafeMap.slot_of_erase same)
  values := owned.values
  old := owned.old
  pending := owned.pending
  distinct := owned.distinct

theorem Owned.assign (owned : Owned map allocated writers) {caller ref : Nat} {p : Ptr}
    (stage : writers[caller]? = some (.assigning ref p)) :
    Owned (map.assign ref p) allocated (writers.eraseIdx caller) := by
  obtain ⟨fresh, unused⟩ := owned.pending _ (List.mem_of_getElem? stage)
  obtain ⟨before, after, split, _, erased⟩ := split_of_getElem? stage
  have distinct := owned.distinct
  rw [split] at distinct
  simp only [List.map_append, List.map_cons, MapWriter.entry] at distinct
  have kept := List.nodup_cons.mp (List.perm_middle.nodup_iff.mp distinct)
  rw [← List.map_append] at kept
  refine ⟨owned.slots, ?_, ?_, ?_, ?_⟩
  · intro one other q held same
    by_cases first : one = ref <;> by_cases second : other = ref
    · rw [first, second]
    · subst first
      simp only [SafeMap.assign, Function.update_self, Option.some.injEq] at held
      simp only [SafeMap.assign, Function.update_of_ne second] at same
      exact absurd (held ▸ same) (unused other)
    · subst second
      simp only [SafeMap.assign, Function.update_self, Option.some.injEq] at same
      simp only [SafeMap.assign, Function.update_of_ne first] at held
      exact absurd (same ▸ held) (unused one)
    · simp only [SafeMap.assign, Function.update_of_ne first] at held
      simp only [SafeMap.assign, Function.update_of_ne second] at same
      exact owned.values one other q held same
  · intro one q held
    by_cases first : one = ref
    · subst first
      simp only [SafeMap.assign, Function.update_self, Option.some.injEq] at held
      exact held ▸ fresh
    · simp only [SafeMap.assign, Function.update_of_ne first] at held
      exact owned.old one q held
  · intro w member
    have known : w ∈ writers := List.mem_of_mem_eraseIdx member
    refine ⟨(owned.pending w known).1, fun one held => ?_⟩
    by_cases first : one = ref
    · subst first
      simp only [SafeMap.assign, Function.update_self, Option.some.injEq] at held
      rw [erased] at member
      exact kept.1 (held ▸ List.mem_map_of_mem member)
    · simp only [SafeMap.assign, Function.update_of_ne first] at held
      exact (owned.pending w known).2 one held
  · rw [erased]
    exact kept.2

theorem Owned.build (owned : Owned map allocated writers) (reqId : Int32) :
    Owned map (allocated + 1) (writers ++ [.built reqId allocated]) := by
  refine ⟨owned.slots, owned.values, ?_, ?_, ?_⟩
  · exact fun ref p held => Nat.lt_succ_of_lt (owned.old ref p held)
  · intro w member
    rcases List.mem_append.mp member with before | new
    · obtain ⟨small, unused⟩ := owned.pending w before
      exact ⟨Nat.lt_succ_of_lt small, unused⟩
    · rw [List.mem_singleton.mp new]
      exact ⟨Nat.lt_succ_self _, fun ref held => Nat.lt_irrefl _ (owned.old ref allocated held)⟩
  · rw [List.map_append]
    refine List.nodup_append.mpr ⟨owned.distinct, by simp, ?_⟩
    intro p member q single
    obtain ⟨w, before, rfl⟩ := List.mem_map.mp member
    rw [List.mem_singleton.mp single]
    exact Nat.ne_of_lt (owned.pending w before).1

theorem Owned.stage (owned : Owned map allocated writers) {caller ref : Nat} {p : Ptr}
    (stage : writers[caller]? = some (.built reqId p)) :
    Owned map allocated (writers.set caller (.assigning ref p)) := by
  obtain ⟨before, after, rfl, replaced⟩ := split_of_set stage
  have same : (before ++ .assigning ref p :: after).map MapWriter.entry =
      (before ++ .built reqId p :: after).map MapWriter.entry := by
    simp [MapWriter.entry]
  rw [replaced]
  refine ⟨owned.slots, owned.values, owned.old, fun w member => ?_, ?_⟩
  · have entry : w.entry ∈ (before ++ .built reqId p :: after).map MapWriter.entry := by
      rw [← same]
      exact List.mem_map_of_mem member
    obtain ⟨old, known, equal⟩ := List.mem_map.mp entry
    rw [← equal]
    exact owned.pending old known
  · rw [same]
    exact owned.distinct

/-- What an access of the map does when its use leaves map and writers alone. -/
theorem Owns.access (owned : s.Owns) {use : MapClient → Ptr → Option MapClient}
    (taken : s.access reqId use = some next)
    (keeps : ∀ before p, use before p = some next → next.recvMsgMap = before.recvMsgMap ∧
      next.allocated = before.allocated ∧ next.writers = before.writers) : next.Owns := by
  unfold Owns
  have looked := Owned.subscript owned reqId
  simp only [MapClient.access] at taken
  split at taken
  · cases taken
    exact looked
  · obtain ⟨map, allocated, writers⟩ := keeps _ _ taken
    rw [map, allocated, writers]
    exact looked

theorem Owns.ioStep (owned : s.Owns) (taken : s.ioStep layout = some next) : next.Owns := by
  unfold MapClient.ioStep at taken
  cases task : s.io with
  | idle => simp [task] at taken
  | headFound head | headSet head =>
    simp only [task] at taken
    refine owned.access taken fun before p used => ?_
    simp only [Option.bind_eq_bind, Option.bind_eq_some_iff, Option.pure_def] at used
    obtain ⟨_, _, same⟩ := used
    cases same
    exact ⟨rfl, rfl, rfl⟩
  | erasing i =>
    simp only [task] at taken
    split at taken
    · obtain ⟨_, _, rfl⟩ := Option.map_eq_some_iff.mp taken
      exact owned
    · cases taken
      exact owned
  | popped i reqid | pushing i reqid =>
    simp only [task] at taken
    cases taken
    exact owned
  | exec i reqid =>
    simp only [task] at taken
    cases taken
    exact Owned.erase owned reqid
  | found i reqid | notExec i reqid | state i reqid =>
    simp only [task] at taken
    refine owned.access taken fun before p used => ?_
    cases used
    exact ⟨rfl, rfl, rfl⟩

theorem Owns.step {event : Event} (owned : s.Owns) (taken : s.step layout event = some next) :
    next.Owns := by
  unfold MapClient.step at taken
  split at taken
  · cases taken
  cases event with
  | build =>
    cases taken
    exact Owned.build owned s.msgIndex
  | subscript caller =>
    dsimp only at taken
    unfold MapClient.subscript at taken
    split at taken
    · rename_i id p stage
      cases taken
      exact (Owned.subscript owned id).stage stage
    · cases taken
  | assign caller =>
    dsimp only at taken
    unfold MapClient.assign at taken
    split at taken
    · rename_i ref p stage
      cases taken
      exact Owned.assign owned stage
    · cases taken
  | find id =>
    cases taken
    unfold MapClient.find
    split <;> exact owned
  | lookUp caller =>
    dsimp only at taken
    unfold MapClient.lookUp at taken
    split at taken
    · refine owned.access taken fun before p used => ?_
      cases used
      exact ⟨rfl, rfl, rfl⟩
    · cases taken
  | mark caller =>
    dsimp only at taken
    unfold MapClient.mark at taken
    split at taken
    · dsimp only at taken
      split at taken
      · cases taken
        exact owned
      · cases taken
    · cases taken
  | list caller =>
    dsimp only at taken
    unfold MapClient.list at taken
    split at taken
    · cases taken
      exact owned
    · cases taken
  | header head =>
    dsimp only at taken
    unfold MapClient.header at taken
    split at taken
    · split at taken <;> cases taken <;> exact owned
    · cases taken
  | eraseMsgTimer =>
    dsimp only at taken
    unfold MapClient.eraseMsgTimer at taken
    split at taken
    · cases taken
      exact owned
    · cases taken
  | io => exact owned.ioStep taken
  | status p v =>
    cases taken
    exact owned

/-- No two ids ever share an entry. -/
theorem ownEntries_of_reaches (reached : (machine layout).Reaches .start s) : s.OwnEntries := by
  have owned : start.Owns := by
    refine ⟨?_, ?_, ?_, ?_, List.nodup_nil⟩
    · exact fun _ _ _ slot => by cases slot
    · exact fun _ _ _ held => by cases held
    · exact fun _ _ held => by cases held
    · exact fun _ member => by cases member
  have kept : s.Owns := Machine.Reaches.invariant Owns.step owned reached
  exact kept.ownEntries

end MapClient

end RpcLoop
