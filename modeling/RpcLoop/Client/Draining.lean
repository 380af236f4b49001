import RpcLoop.Client.EraseTick

/-! When nothing is written or read any more the erase timer empties the
deletion list and the map. A visit either takes an id off the list or marks its
entry for execution, so the length of the list and the number of its ids that
are still in the deletion state together get smaller. -/

namespace RpcLoop.ClientLoop

open Foundation Asio Shared

/-- An action of a caller of `write` or `read`. -/
def Event.calls : Event → Bool
  | .beginWrite _ _ | .push _ | .insert _ | .arm _ | .post _ => true
  | .find _ | .mark _ | .list _ => true
  | _ => false

/-- Listed entries are marked, and every entry is listed. -/
structure Reclaiming (s : ClientLoop) : Prop where
  marks : ∀ id ∈ s.delReqidList.items, ∀ p, s.recvMsgMap[id]? = some p → (s.entries p).Marked
  listed : ∀ (id : Int32) (p : Ptr), s.recvMsgMap[id]? = some p → id ∈ s.delReqidList.items

/-- The visits that are still to come. -/
def owed (s : ClientLoop) : Nat :=
  s.delReqidList.items.length +
    s.delReqidList.items.countP fun id => s.flagOf id = some .eraseState

def Reclaimed (s : ClientLoop) : Prop := s.delReqidList.items = [] ∧ s.recvMsgMap.size = 0

/-- A run of `erase_msg_timer` with its `int` index. -/
def Tick (s next : ClientLoop) : Prop :=
  ∃ t, tickLoop.Exits { client := s } t ∧
    next = { t.client with eTimer := s.eTimer.expiresFromNow.asyncWait }

def Ticks : Nat → ClientLoop → ClientLoop → Prop
  | 0, s, next => next = s
  | count + 1, s, next => ∃ middle, Ticks count s middle ∧ Tick middle next

variable {layout : IntLayout} {s next : ClientLoop} {event : Event}

/-! ### One visit -/

/-- What is reclaimed stays so when entries only leave the map as they are taken off the list. -/
theorem Reclaiming.sweeps (reclaiming : Reclaiming s) (erases : Erases s next)
    (sweeps : Sweeps s next) : Reclaiming next where
  marks id member p found := (erases.marked p).mpr
    (reclaiming.marks id (sweeps.old id member) p (sweeps.sub id p found))
  listed id p found := by
    rcases sweeps.listed id (reclaiming.listed id p (sweeps.sub id p found)) with still | absent
    · exact still
    · cases absent.symm.trans found

private theorem states_eraseOne {id : Int32} {rest : List Int32}
    (items : s.delReqidList.items = id :: rest)
    (other : Int32) (state : s.eraseOne.flagOf other = some .eraseState) :
    s.flagOf other = some .eraseState := by
  have erasure := eraseOne_cases items
  generalize s.eraseOne = next at erasure state
  cases erasure with
  | absent missing => exact state
  | kept p found unmarked => exact state
  | erased p found exec =>
    by_cases equal : other = id
    · subst equal
      simp [flagOf] at state
    · rw [flagOf, getElem?_erase_of_ne equal] at state
      exact state
  | marked p found marked =>
    simp only [flagOf, Option.map_eq_some_iff] at state
    obtain ⟨q, also, flag⟩ := state
    rw [flagOf_of_mapped (s := s) also]
    by_cases equal : q = p
    · subst equal
      rw [marked]
    · simpa [store, equal] using flag

theorem owed_eraseOne {id : Int32} {rest : List Int32} (items : s.delReqidList.items = id :: rest)
    (marks : ∀ p, s.recvMsgMap[id]? = some p → (s.entries p).Marked) :
    s.eraseOne.owed < s.owed := by
  have fewer : rest.countP (fun other => s.eraseOne.flagOf other = some .eraseState) ≤
      rest.countP fun other => s.flagOf other = some .eraseState := by
    refine List.countP_mono_left fun other _ state => ?_
    simpa using states_eraseOne items other (by simpa using state)
  have before : s.owed = rest.length + 1 +
      (rest.countP (fun other => s.flagOf other = some .eraseState) +
        if s.flagOf id = some .eraseState then 1 else 0) := by
    simp [owed, items, List.countP_cons]
  have erasure := eraseOne_cases items
  generalize s.eraseOne = next at erasure fewer ⊢
  have dropped (same : next.delReqidList.items = rest) : next.owed < s.owed := by
    rw [owed, same]
    omega
  have moved (same : next.delReqidList.items = rest ++ [id])
      (flag : next.flagOf id ≠ some .eraseState) (state : s.flagOf id = some .eraseState) :
      next.owed < s.owed := by
    rw [if_pos state] at before
    rw [owed, same]
    simp only [List.length_append, List.length_singleton, List.countP_append,
      List.countP_singleton, flag, decide_false, Bool.false_eq_true, if_false]
    omega
  cases erasure with
  | absent missing => exact dropped rfl
  | erased p found exec => exact dropped rfl
  | marked p found state =>
    refine moved rfl ?_ ((flagOf_of_mapped found).trans (congrArg some state))
    simp [flagOf, found, store]
  | kept p found unmarked => exact absurd (marks p found) unmarked

theorem length_eraseOne (s : ClientLoop) :
    s.eraseOne.delReqidList.items.length ≤ s.delReqidList.items.length := by
  cases items : s.delReqidList.items with
  | nil => rw [eraseOne_nil items, items]
  | cons id rest =>
    have erasure := eraseOne_cases items
    generalize s.eraseOne = next at erasure ⊢
    cases erasure <;> simp

/-! ### One tick -/

private theorem tick_exits (t : EraseTick) : ∃ final, tickLoop.Exits t final := by
  refine Loop.exits_of_variant (fun _ => True) (fun t => (2 ^ 31 - t.i.toInt).toNat) ?_ trivial
  intro t _ test
  have less := test_iff_toInt.mp test
  have most := t.client.delSize.toInt_lt
  refine ⟨trivial, ?_⟩
  rw [toInt_round test]
  omega

/-- What a tick that began with a client leaves of its work. -/
structure Progress (owes length : Nat) (t : EraseTick) : Prop where
  reclaiming : Reclaiming t.client
  length : t.client.delReqidList.items.length ≤ length
  owed : t.client.owed ≤ owes

theorem Progress.round {owes length : Nat} {t : EraseTick} (progress : Progress owes length t) :
    Progress owes length (tickLoop.round t) where
  reclaiming := progress.reclaiming.sweeps (eraseOne_erases _) (eraseOne_sweeps _)
  length := Nat.le_trans (length_eraseOne _) progress.length
  owed := by
    refine Nat.le_trans ?_ progress.owed
    cases items : t.client.delReqidList.items with
    | nil => simp only [tickLoop, eraseOne_nil items, Nat.le_refl]
    | cons id rest =>
      have member : id ∈ t.client.delReqidList.items := by simp [items]
      exact Nat.le_of_lt (owed_eraseOne items (progress.reclaiming.marks id member))

/-- A tick makes at least one visit unless the list is empty. -/
theorem Reclaiming.exits (reclaiming : Reclaiming s)
    (few : s.delReqidList.items.length < 2 ^ 31) {t : EraseTick}
    (exits : tickLoop.Exits { client := s } t) :
    Progress (s.owed - 1) s.delReqidList.items.length t := by
  cases items : s.delReqidList.items with
  | nil =>
    have nothing : s.owed = 0 := by simp [owed, items]
    have start : Progress (s.owed - 1) 0 { client := s } := by
      refine ⟨reclaiming, ?_, ?_⟩
      · simp [items]
      · rw [nothing]
    exact exits.invariant (fun progress _ => progress.round) start
  | cons id rest =>
    have member : id ∈ s.delReqidList.items := by simp [items]
    have less := owed_eraseOne items (reclaiming.marks id member)
    have first : Progress (s.owed - 1) s.delReqidList.items.length
        (tickLoop.round { client := s }) := by
      refine ⟨reclaiming.sweeps (eraseOne_erases s) (eraseOne_sweeps s), length_eraseOne s, ?_⟩
      exact Nat.le_sub_one_of_lt less
    have test := (@test_iff_lt s 0 [] few (by decide)).mpr (List.length_pos_of_mem member)
    have later := (Loop.exits_round test).mp exits
    rw [← items]
    exact later.invariant (fun progress _ => progress.round) first

theorem Reclaiming.tick (reclaiming : Reclaiming s) (few : s.delReqidList.items.length < 2 ^ 31)
    (tick : Tick s next) :
    Reclaiming next ∧ next.delReqidList.items.length ≤ s.delReqidList.items.length ∧
      next.owed ≤ s.owed - 1 := by
  obtain ⟨t, exits, rfl⟩ := tick
  have progress := reclaiming.exits few exits
  exact ⟨⟨progress.reclaiming.marks, progress.reclaiming.listed⟩, progress.length, progress.owed⟩

theorem Reclaiming.reclaimed (reclaiming : Reclaiming s) (nothing : s.owed = 0) : Reclaimed s := by
  have items : s.delReqidList.items = [] := by
    simp only [owed] at nothing
    exact List.length_eq_zero_iff.mp (by omega)
  refine ⟨items, ?_⟩
  rw [← Std.TreeMap.length_toList, List.length_eq_zero_iff, List.eq_nil_iff_forall_not_mem]
  intro pair member
  have listed := reclaiming.listed pair.1 pair.2
    (Std.TreeMap.mem_toList_iff_getElem?_eq_some.mp member)
  rw [items] at listed
  cases listed

private theorem owed_le (s : ClientLoop) : s.owed ≤ 2 * s.delReqidList.items.length := by
  have most := List.countP_le_length (p := fun id => s.flagOf id = some .eraseState)
    (l := s.delReqidList.items)
  rw [owed]
  omega

/-! ### The client -/

private theorem eraseLoop_exits (rounds i : Nat) (handled : List Int32) (s : ClientLoop)
    (few : s.delReqidList.items.length < 2 ^ 31) (index : i < 2 ^ 31)
    (enough : s.delReqidList.items.length ≤ rounds + i) :
    ∃ t, tickLoop.Exits { i := Int32.ofNat i, handled := handled, client := s } t ∧
      t.client = eraseLoop rounds i s := by
  induction rounds generalizing i handled s with
  | zero =>
    refine ⟨_, Loop.exits_at_once (test_eq_false few index ?_), rfl⟩
    omega
  | succ rounds ih =>
    rw [eraseLoop]
    split
    · rename_i inside
      have within : i < s.delReqidList.items.length := inside
      have shorter := length_eraseOne s
      obtain ⟨t, exits, same⟩ := ih (i + 1)
        (handled ++ s.delReqidList.items.head?.toList) s.eraseOne (by omega) (by omega) (by omega)
      refine ⟨t, (Loop.exits_round ((test_iff_lt few index).mpr within)).mpr ?_, same⟩
      rw [Int32.ofNat_add] at exits
      exact exits
    · rename_i outside
      exact ⟨_, Loop.exits_at_once (test_eq_false few index (Nat.le_of_not_lt outside)), rfl⟩

/-- While the list can be counted in an `int`, the handler of the model runs the
loop of the code. -/
theorem tick_eraseMsgTimer (few : s.delReqidList.items.length < 2 ^ 31) :
    Tick s s.eraseMsgTimer := by
  have zero : (0 : Nat) < 2 ^ 31 := by decide
  obtain ⟨t, exits, same⟩ := eraseLoop_exits s.delReqidList.size 0 [] s few zero (Nat.le_refl _)
  refine ⟨t, exits, ?_⟩
  have timer : t.client.eTimer = s.eTimer := by
    rw [same, (eraseLoop_erases s.delReqidList.size 0 s).rest]
  rw [eraseMsgTimer, ← same]
  simp only [timer]

/-- A step that is neither a call nor a tick. -/
structure Idle (s next : ClientLoop) : Prop where
  map : next.recvMsgMap = s.recvMsgMap
  list : next.delReqidList = s.delReqidList
  flags : ∀ p, p < s.allocated → (next.entries p).eraseFlag = (s.entries p).eraseFlag

theorem Idle.store {p : Ptr} {m : RpcStruct} (flag : m.eraseFlag = (s.entries p).eraseFlag)
    (map : next.recvMsgMap = s.recvMsgMap) (list : next.delReqidList = s.delReqidList)
    (entries : next.entries = (s.store p m).entries) : Idle s next where
  map := map
  list := list
  flags q _ := by
    rw [entries]
    by_cases equal : q = p
    · subst equal
      simp [ClientLoop.store, flag]
    · simp [ClientLoop.store, equal]

private theorem idle_of_step (transition : Transition layout s event next)
    (quiet : event.calls = false)
    (still : event.ticks = false) : Idle s next := by
  cases transition with
  | receivedMsg index op p length bytes filled start live up kind copied =>
    have frame := RpcStruct.copyIn_frame copied
    exact .store (m := filled) (by rw [frame]) rfl rfl rfl
  | headKnown index op head p known' readMsg link start done opened kind present headed buffer
      reading =>
    have first := RpcStruct.setHead_frame headed
    have second := RpcStruct.newData_frame buffer
    exact .store (m := readMsg) (by rw [second, first]) rfl rfl rfl
  | headUnknown index op head readMsg link start done opened kind unknown buffer reading =>
    refine ⟨rfl, rfl, fun p old => ?_⟩
    have other : p ≠ s.allocated := Nat.ne_of_lt old
    simp [ClientLoop.store, other]
  | msgFailed index op p length link start failed opened kind closing =>
    exact .store (m := (s.entries p).setStatus .error) rfl rfl rfl rfl
  | msgOk index op p length readMsg link start done opened kind body reading =>
    have frame := RpcStruct.newData_frame body
    exact .store (m := readMsg.setStatus .readOk) (by rw [frame]; rfl) rfl rfl rfl
  | expired p timer moved => exact .store (by rfl) rfl rfl rfl
  | timedOut p timer moved => exact .store (by rfl) rfl rfl rfl
  | timeoutCancelled p timer moved => exact .store (by rfl) rfl rfl rfl
  | begun | pushed | unqueued | inserted | armed | returned | absent | found | marked | listed =>
    cases quiet
  | connectOk | erased => cases still
  | _ => exact ⟨rfl, rfl, fun _ _ => rfl⟩

theorem Idle.flagOf (idle : Idle s next) (known : PtrsKnown s) (id : Int32) :
    next.flagOf id = s.flagOf id := by
  cases found : s.recvMsgMap[id]? with
  | none =>
    rw [flagOf_eq_none.mpr found, flagOf_eq_none]
    rw [idle.map, found]
  | some p =>
    have same : next.recvMsgMap[id]? = some p := by rw [idle.map, found]
    rw [flagOf_of_mapped found, flagOf_of_mapped same, idle.flags p (known.map id p found)]

theorem Idle.owed (idle : Idle s next) (known : PtrsKnown s) : next.owed = s.owed := by
  simp only [ClientLoop.owed, idle.list, idle.flagOf known]

theorem Reclaiming.idle (reclaiming : Reclaiming s) (idle : Idle s next) (known : PtrsKnown s) :
    Reclaiming next where
  marks id member p found := by
    rw [idle.map] at found
    rw [idle.list] at member
    have flag := idle.flags p (known.map id p found)
    rw [RpcStruct.Marked, flag]
    exact reclaiming.marks id member p found
  listed id p found := by
    rw [idle.map] at found
    rw [idle.list]
    exact reclaiming.listed id p found

private theorem ticks_step {count : Nat} (reclaiming : Reclaiming s)
    (few : s.delReqidList.items.length < 2 ^ 31) (ticks : Ticks count s next) :
    Reclaiming next ∧ next.delReqidList.items.length ≤ s.delReqidList.items.length ∧
      next.owed ≤ s.owed - count := by
  induction count generalizing next with
  | zero =>
    cases ticks
    exact ⟨reclaiming, Nat.le_refl _, Nat.le_refl _⟩
  | succ count ih =>
    obtain ⟨middle, early, tick⟩ := ticks
    obtain ⟨held, length, owes⟩ := ih early
    obtain ⟨later, shorter, less⟩ := held.tick (Nat.lt_of_le_of_lt length few) tick
    exact ⟨later, Nat.le_trans shorter length, by omega⟩

/-- A step of the client in which nothing is written or read. -/
theorem Reclaiming.step (reclaiming : Reclaiming s) (known : PtrsKnown s)
    (few : s.delReqidList.items.length < 2 ^ 31) (quiet : event.calls = false)
    (taken : (machine layout).step s event = some next) :
    Reclaiming next ∧ next.delReqidList.items.length ≤ s.delReqidList.items.length ∧
      next.owed ≤ s.owed - [event].countP Event.ticks := by
  cases ticks : event.ticks with
  | true =>
    obtain ⟨link, timer, rfl⟩ := tick_of_step ticks taken
    have before : Reclaiming { s with link := link, eTimer := timer } :=
      ⟨reclaiming.marks, reclaiming.listed⟩
    have one : [event].countP Event.ticks = 1 := by simp [ticks]
    rw [one]
    exact before.tick few (tick_eraseMsgTimer few)
  | false =>
    have idle := idle_of_step (transition_of_step taken) quiet ticks
    refine ⟨reclaiming.idle idle known, ?_, ?_⟩
    · rw [idle.list]
    · simp [ticks, idle.owed known]

private theorem reclaiming_run {schedule : List Event} {final : ClientLoop}
    (reclaiming : Reclaiming s)
    (known : PtrsKnown s) (few : s.delReqidList.items.length < 2 ^ 31)
    (quiet : ∀ event ∈ schedule, event.calls = false)
    (runs : (machine layout).run s schedule = some final) :
    Reclaiming final ∧ final.delReqidList.items.length ≤ s.delReqidList.items.length ∧
      final.owed ≤ s.owed - schedule.countP Event.ticks := by
  induction schedule generalizing s with
  | nil =>
    cases Option.some.inj runs
    exact ⟨reclaiming, Nat.le_refl _, Nat.le_refl _⟩
  | cons event rest ih =>
    obtain ⟨next, taken, later⟩ := Machine.run_cons_eq_some.mp runs
    obtain ⟨held, length, owes⟩ := reclaiming.step known few (quiet event List.mem_cons_self) taken
    obtain ⟨done, shorter, less⟩ := ih held (known.step (transition_of_step taken))
      (Nat.lt_of_le_of_lt length few) (fun other member => quiet other (.tail _ member)) later
    refine ⟨done, Nat.le_trans shorter length, ?_⟩
    rw [List.countP_cons]
    simp only [List.countP_singleton] at owes
    omega

/-- Once nothing is written or read any more every tick ends, and as many ticks
as twice the length of the list empty the list and the map, however the other
handlers run between them, provided the list can be counted in an `int`. -/
theorem reclaimed_after_ticks (layout : IntLayout) (reclaiming : Reclaiming s)
    (few : s.delReqidList.items.length < 2 ^ 31) :
    (∀ count, (∃ next, Ticks count s next) ∧ ∀ next, Ticks count s next →
      (∃ after, Tick next after) ∧ (2 * s.delReqidList.items.length ≤ count → Reclaimed next)) ∧
    (PtrsKnown s → ∀ schedule final, (∀ event ∈ schedule, event.calls = false) →
      (machine layout).run s schedule = some final →
      Tick final final.eraseMsgTimer ∧
        (2 * s.delReqidList.items.length ≤ schedule.countP Event.ticks → Reclaimed final)) := by
  have owes := owed_le s
  constructor
  · intro count
    constructor
    · induction count with
      | zero => exact ⟨s, rfl⟩
      | succ count ih =>
        obtain ⟨middle, early⟩ := ih
        obtain ⟨t, exits⟩ := tick_exits { client := middle }
        exact ⟨_, middle, early, t, exits, rfl⟩
    · intro next ticks
      obtain ⟨held, length, less⟩ := ticks_step reclaiming few ticks
      obtain ⟨t, exits⟩ := tick_exits { client := next }
      exact ⟨⟨_, t, exits, rfl⟩, fun enough => held.reclaimed (by omega)⟩
  · intro known schedule final quiet runs
    obtain ⟨held, length, less⟩ := reclaiming_run reclaiming known few quiet runs
    refine ⟨tick_eraseMsgTimer (Nat.lt_of_le_of_lt length few), fun enough => ?_⟩
    exact held.reclaimed (by omega)

private theorem twoListed_reclaiming {first second : ClientStatusType}
    (one : first = .eraseState ∨ first = .eraseExec)
    (two : second = .eraseState ∨ second = .eraseExec) : Reclaiming (twoListed first second) where
  marks := twoListed_marks one two
  listed id p found := by
    rcases twoListed_mapped found with ⟨rfl, -⟩ | ⟨rfl, -⟩
    · exact List.mem_cons_self
    · exact List.mem_cons_of_mem _ List.mem_cons_self

theorem twoListed_reclaimed : (∃ next, Ticks 4 (twoListed .eraseState .eraseState) next) ∧
    ∀ next, Ticks 4 (twoListed .eraseState .eraseState) next → Reclaimed next := by
  have ticks := (reclaimed_after_ticks .littleEndian
    (twoListed_reclaiming (.inl rfl) (.inl rfl)) (by decide)).1 4
  exact ⟨ticks.1, fun next taken => (ticks.2 next taken).2 (by decide)⟩

/-- An id that is listed as often as no `int` can count. -/
def listedTooOften : ClientLoop :=
  { start .on with
    recvMsgMap := Std.TreeMap.empty.insert 1 0
    delReqidList := { items := List.replicate (2 ^ 31) 1 }
    entries := fun _ => { RpcStruct.new with eraseFlag := .eraseExec }
    allocated := 1 }

/-- The size of the list is negative, and its ticks do nothing. -/
theorem listedTooOften_stays : Reclaiming listedTooOften ∧
    ∀ count next, Ticks count listedTooOften next → ¬ Reclaimed next := by
  constructor
  · refine ⟨fun id _ p _ => .inr rfl, fun id p found => ?_⟩
    simp only [listedTooOften, Std.TreeMap.getElem?_insert,
      Std.LawfulEqCmp.compare_eq_iff_eq] at found
    split at found
    · rename_i same
      subst same
      exact List.mem_replicate.mpr ⟨by decide, rfl⟩
    · simp at found
  · have same : ∀ count next, Ticks count listedTooOften next →
        next.delReqidList = listedTooOften.delReqidList := by
      intro count
      induction count with
      | zero =>
        intro next ticks
        rw [ticks]
      | succ count ih =>
        rintro next ⟨middle, early, t, exits, rfl⟩
        have list := ih middle early
        have size : middle.delSize = Int32.ofNat (2 ^ 31) := by
          rw [delSize, SafeQueue.size, list, listedTooOften, List.length_replicate]
        have fails : tickLoop.test { client := middle } = false := by
          simp only [tickLoop, size]
          decide
        rw [exits.unique (Loop.exits_at_once fails)]
        exact list
    intro count next ticks reclaimed
    have length := congrArg List.length reclaimed.1
    rw [same count next ticks, listedTooOften, List.length_replicate] at length
    exact absurd length (by decide)

end RpcLoop.ClientLoop
