import RpcLoop.Client.Collection
import RpcLoop.Foundation.Loop

/-! One run of the loop in `erase_msg_timer`. Its index is an `int` that only
grows, and is compared with the size of a list that shrinks whenever an id is
not put back. -/

namespace RpcLoop.ClientLoop

open Foundation Asio Shared

/-- `del_reqid_list.size()`, which is an `int`. -/
def delSize (s : ClientLoop) : Int32 := Int32.ofNat s.delReqidList.size

/-- The mark of the entry of an id, when it has one. -/
def flagOf (s : ClientLoop) (reqid : Int32) : Option ClientStatusType :=
  s.recvMsgMap[reqid]?.map fun p => (s.entries p).eraseFlag

/-- The variables of the loop, and the ids it has popped. -/
structure EraseTick where
  i : Int32 := 0
  handled : List Int32 := []
  client : ClientLoop

/-- `for (int i=0; i<del_reqid_list.size(); ++i)`. -/
def tickLoop : Loop EraseTick where
  test t := t.i < t.client.delSize
  round t :=
    { i := t.i + 1
      handled := t.handled ++ t.client.delReqidList.items.head?.toList
      client := t.client.eraseOne }

/-- Each id has an entry of its own. -/
def OwnEntries (s : ClientLoop) : Prop :=
  ∀ (id other : Int32) (p : Ptr), s.recvMsgMap[id]? = some p → s.recvMsgMap[other]? = some p →
    id = other

/-- The entry of an id that the loop has met. -/
def met (m : RpcStruct) : RpcStruct :=
  if m.eraseFlag = .eraseState then { m with eraseFlag := .eraseExec } else m

/-- What is left when the first ids of the list have been handled once. -/
structure Met (front back : List Int32) (s next : ClientLoop) : Prop where
  items : next.delReqidList.items = back ++ front.filter fun id => s.flagOf id = some .eraseState
  gone : ∀ id ∈ front, s.flagOf id = some .eraseExec → next.recvMsgMap[id]? = none
  kept : ∀ id : Int32, (id ∈ front → s.flagOf id ≠ some .eraseExec) →
    next.recvMsgMap[id]? = s.recvMsgMap[id]?
  touched : ∀ id ∈ front, ∀ p, s.recvMsgMap[id]? = some p → next.entries p = met (s.entries p)
  untouched : ∀ p, (∀ id ∈ front, s.recvMsgMap[id]? ≠ some p) → next.entries p = s.entries p

/-- Every id of the list has been handled: those marked for execution and those
that are not in the map are gone, those in the deletion state are marked for
execution and listed in their order, and no other entry has changed. -/
structure TickDone (s next : ClientLoop) : Prop where
  executed : ∀ id ∈ s.delReqidList.items, s.flagOf id = some .eraseExec →
    next.recvMsgMap[id]? = none ∧ id ∉ next.delReqidList.items
  marked : ∀ id ∈ s.delReqidList.items, ∀ p, s.recvMsgMap[id]? = some p →
    (s.entries p).eraseFlag = .eraseState →
    next.recvMsgMap[id]? = some p ∧
      next.entries p = { s.entries p with eraseFlag := .eraseExec } ∧ id ∈ next.delReqidList.items
  order : next.delReqidList.items =
    s.delReqidList.items.filter fun id => s.flagOf id = some .eraseState
  absent : ∀ id ∈ s.delReqidList.items, s.recvMsgMap[id]? = none →
    next.recvMsgMap[id]? = none ∧ id ∉ next.delReqidList.items
  others : ∀ id ∉ s.delReqidList.items, next.recvMsgMap[id]? = s.recvMsgMap[id]? ∧
    ∀ p, s.recvMsgMap[id]? = some p → next.entries p = s.entries p

variable {s next : ClientLoop}

theorem Catalogued.ownEntries (entries : Catalogued s) : OwnEntries s := by
  intro id other p found again
  obtain ⟨first, member, rfl, entry⟩ := entries.mapped id p found
  obtain ⟨second, also, rfl, same⟩ := entries.mapped other p again
  rw [entries.apart first member second also (entry.trans same.symm)]

theorem flagOf_of_mapped {id : Int32} {p : Ptr} (found : s.recvMsgMap[id]? = some p) :
    s.flagOf id = some (s.entries p).eraseFlag := by
  rw [flagOf, found, Option.map_some]

theorem flagOf_eq_none {id : Int32} : s.flagOf id = none ↔ s.recvMsgMap[id]? = none :=
  Option.map_eq_none_iff

private theorem met_one {id : Int32} {rest : List Int32} (items : s.delReqidList.items = id :: rest)
    (marks : ∀ p, s.recvMsgMap[id]? = some p → (s.entries p).Marked) :
    Met [id] rest s s.eraseOne := by
  have erasure := eraseOne_cases items
  generalize s.eraseOne = next at erasure ⊢
  cases erasure with
  | absent missing =>
    have none := flagOf_eq_none.mpr missing
    refine ⟨by simp [none], ?_, fun _ _ => rfl, ?_, fun _ _ => rfl⟩
    · intro other member exec
      rw [List.mem_singleton.mp member, none] at exec
      cases exec
    · intro other member p found
      rw [List.mem_singleton.mp member, missing] at found
      cases found
  | erased p found exec =>
    have flag := flagOf_of_mapped found
    rw [exec] at flag
    refine ⟨by simp [flag], ?_, ?_, ?_, fun _ _ => rfl⟩
    · intro other member _
      rw [List.mem_singleton.mp member]
      exact Std.TreeMap.getElem?_erase_self
    · intro other outside
      refine getElem?_erase_of_ne ?_ _
      rintro rfl
      exact outside (List.mem_singleton.mpr rfl) flag
    · intro other member q also
      rw [List.mem_singleton.mp member, found] at also
      cases also
      simp [met, exec]
  | marked p found state =>
    have flag := flagOf_of_mapped found
    rw [state] at flag
    refine ⟨by simp [flag], ?_, fun _ _ => rfl, ?_, ?_⟩
    · intro other member exec
      rw [List.mem_singleton.mp member, flag] at exec
      cases exec
    · intro other member q also
      rw [List.mem_singleton.mp member, found] at also
      cases also
      simp [ClientLoop.store, met, state]
    · intro q apart
      have different : q ≠ p := by
        rintro rfl
        exact apart id (List.mem_singleton.mpr rfl) found
      simp [ClientLoop.store, different]
  | kept p found unmarked => exact absurd (marks p found) unmarked

theorem Met.initial (s : ClientLoop) : Met [] s.delReqidList.items s s where
  items := by simp
  gone _ member := by cases member
  kept _ _ := rfl
  touched _ member := by cases member
  untouched _ _ := rfl

theorem Met.another (own : OwnEntries s) {middle : ClientLoop} {front rest : List Int32}
    {id : Int32} (before : Met front (id :: rest) s middle) (new : id ∉ front)
    (marks : ∀ p, s.recvMsgMap[id]? = some p → (s.entries p).Marked) :
    Met (front ++ [id]) rest s middle.eraseOne := by
  have mapped : middle.recvMsgMap[id]? = s.recvMsgMap[id]? :=
    before.kept id fun member => absurd member new
  have entry : ∀ p, s.recvMsgMap[id]? = some p → middle.entries p = s.entries p := by
    intro p found
    refine before.untouched p fun other member same => ?_
    rw [own id other p found same] at new
    exact new member
  have flag : middle.flagOf id = s.flagOf id := by
    cases found : s.recvMsgMap[id]? with
    | none => rw [flagOf_eq_none.mpr found, flagOf_eq_none.mpr (mapped.trans found)]
    | some p => rw [flagOf_of_mapped found, flagOf_of_mapped (mapped.trans found), entry p found]
  have one := met_one before.items (by
    intro p found
    rw [mapped] at found
    rw [entry p found]
    exact marks p found)
  have same : ∀ other : Int32, other ≠ id →
      middle.eraseOne.recvMsgMap[other]? = middle.recvMsgMap[other]? := by
    intro other different
    exact one.kept other fun member => absurd (List.mem_singleton.mp member) different
  refine ⟨?_, ?_, ?_, ?_, ?_⟩
  · rw [one.items, List.filter_append, ← List.append_assoc, List.append_assoc]
    simp [flag, List.filter_cons]
  · intro other member exec
    by_cases equal : other = id
    · subst equal
      exact one.gone other (List.mem_singleton.mpr rfl) (flag.trans exec)
    · have early : other ∈ front := by simpa [equal] using member
      rw [same other equal]
      exact before.gone other early exec
  · intro other outside
    by_cases equal : other = id
    · subst equal
      refine (one.kept other fun _ => ?_).trans mapped
      rw [flag]
      exact outside (List.mem_append_right _ (List.mem_singleton.mpr rfl))
    · rw [same other equal]
      exact before.kept other fun member => outside (List.mem_append_left _ member)
  · intro other member p found
    by_cases equal : other = id
    · subst equal
      rw [one.touched other (List.mem_singleton.mpr rfl) p (mapped.trans found), entry p found]
    · have early : other ∈ front := by simpa [equal] using member
      rw [one.untouched p, before.touched other early p found]
      intro last single also
      rw [List.mem_singleton.mp single, mapped] at also
      exact equal (own other id p found also)
  · intro p apart
    rw [one.untouched p, before.untouched p]
    · exact fun other member => apart other (List.mem_append_left _ member)
    · intro last single also
      rw [List.mem_singleton.mp single, mapped] at also
      exact apart id (List.mem_append_right _ (List.mem_singleton.mpr rfl)) also

/-- A loop that handles every id leaves a tick that is done. -/
theorem Met.done (own : OwnEntries s) (whole : Met s.delReqidList.items [] s next) :
    TickDone s next where
  executed id member exec := by
    refine ⟨whole.gone id member exec, ?_⟩
    rw [whole.items]
    simp [exec]
  marked id member p found state := by
    have flag := flagOf_of_mapped found
    rw [state] at flag
    refine ⟨?_, ?_, ?_⟩
    · rw [whole.kept id fun _ => by rw [flag]; simp, found]
    · rw [whole.touched id member p found, met, if_pos state]
    · rw [whole.items]
      simp [member, flag]
  order := whole.items.trans (List.nil_append _)
  absent id member missing := by
    have none := flagOf_eq_none.mpr missing
    refine ⟨?_, ?_⟩
    · rw [whole.kept id fun _ => by rw [none]; simp, missing]
    · rw [whole.items]
      simp [none]
  others id outside := by
    refine ⟨whole.kept id fun member => absurd member outside, fun p found => ?_⟩
    refine whole.untouched p fun other member same => ?_
    rw [own other id p same found] at member
    exact outside member

/-! ### Rounds -/

theorem test_iff_toInt {t : EraseTick} :
    tickLoop.test t = true ↔ t.i.toInt < t.client.delSize.toInt := by
  simp [tickLoop, Int32.lt_iff_toInt_lt]

/-- The test compares two numbers, as long as both fit into an `int`. -/
theorem test_iff_lt {i : Nat} {handled : List Int32} (few : s.delReqidList.items.length < 2 ^ 31)
    (index : i < 2 ^ 31) :
    tickLoop.test { i := Int32.ofNat i, handled := handled, client := s } = true ↔
      i < s.delReqidList.items.length := by
  have size : s.delSize.toInt = s.delReqidList.items.length := Int32.toInt_ofNat_of_lt few
  rw [test_iff_toInt, size, Int32.toInt_ofNat_of_lt index]
  exact Int.ofNat_lt

theorem test_eq_false {i : Nat} {handled : List Int32}
    (few : s.delReqidList.items.length < 2 ^ 31) (index : i < 2 ^ 31)
    (outside : s.delReqidList.items.length ≤ i) :
    tickLoop.test { i := Int32.ofNat i, handled := handled, client := s } = false := by
  rw [Bool.eq_false_iff, ne_eq, test_iff_lt few index]
  exact Nat.not_lt.mpr outside

/-- A round whose test holds keeps the index in the range of `int`. -/
theorem toInt_round {t : EraseTick} (test : tickLoop.test t = true) :
    (tickLoop.round t).i.toInt = t.i.toInt + 1 := by
  have less := test_iff_toInt.mp test
  have most := t.client.delSize.toInt_lt
  have least := t.i.le_toInt
  have one : (1 : Int32).toInt = 1 := rfl
  simp only [tickLoop]
  rw [CInt.toInt_add _ _ (by rw [one]; omega) (by rw [one]; omega), one]

private theorem tick_counts {t : EraseTick} {count : Nat}
    (before : t.i.toInt = count ∧ t.handled.length = count) (test : tickLoop.test t = true) :
    (tickLoop.round t).i.toInt = (count + 1 : Nat) ∧
      (tickLoop.round t).handled.length = count + 1 := by
  constructor
  · rw [toInt_round test, before.1]
    rfl
  · cases items : t.client.delReqidList.items with
    | nil =>
      have less := test_iff_toInt.mp test
      have zero : t.client.delSize.toInt = 0 := by simp [delSize, SafeQueue.size, items]
      omega
    | cons id rest => simp [tickLoop, items, before.2]

private theorem rounds_count {count : Nat}
    (tests : ∀ earlier < count, tickLoop.test (tickLoop.round^[earlier] { client := s }) = true) :
    (tickLoop.round^[count] { client := s }).i.toInt = count ∧
      (tickLoop.round^[count] { client := s }).handled.length = count := by
  induction count with
  | zero => exact ⟨rfl, rfl⟩
  | succ count ih =>
    rw [Function.iterate_succ_apply']
    have before := ih fun earlier less => tests earlier (Nat.lt_succ_of_lt less)
    exact tick_counts before (tests count (Nat.lt_succ_self count))

section Distinct

variable (own : OwnEntries s) (distinct : s.delReqidList.items.Nodup)
  (marks : ∀ id ∈ s.delReqidList.items, ∀ p, s.recvMsgMap[id]? = some p → (s.entries p).Marked)

include own distinct marks

theorem met_rounds {count : Nat} (within : count ≤ s.delReqidList.items.length) :
    Met (s.delReqidList.items.take count) (s.delReqidList.items.drop count) s
      (eraseOne^[count] s) := by
  induction count with
  | zero => simpa using Met.initial s
  | succ count ih =>
    have inside : count < s.delReqidList.items.length := within
    have before := ih (Nat.le_of_lt inside)
    rw [List.drop_eq_getElem_cons inside] at before
    rw [Function.iterate_succ_apply', List.take_succ_eq_append_getElem inside]
    refine before.another own ?_ (marks _ (List.getElem_mem inside))
    intro again
    obtain ⟨earlier, less, same⟩ := List.mem_take_iff_getElem.mp again
    have equal := (List.Nodup.getElem_inj_iff distinct).mp same
    omega

private theorem size_rounds {count : Nat} (within : count ≤ s.delReqidList.items.length) :
    (eraseOne^[count] s).delReqidList.size = s.delReqidList.items.length - count +
      (s.delReqidList.items.take count).countP fun id => s.flagOf id = some .eraseState := by
  rw [SafeQueue.size, (met_rounds own distinct marks within).items, List.length_append,
    List.length_drop, List.countP_eq_length_filter]

theorem round_eq {count : Nat} (within : count ≤ s.delReqidList.items.length) :
    tickLoop.round^[count] { client := s } =
      { i := Int32.ofNat count
        handled := s.delReqidList.items.take count
        client := eraseOne^[count] s } := by
  induction count with
  | zero => simp
  | succ count ih =>
    have inside : count < s.delReqidList.items.length := within
    have items := (met_rounds own distinct marks (Nat.le_of_lt inside)).items
    rw [List.drop_eq_getElem_cons inside] at items
    rw [Function.iterate_succ_apply', ih (Nat.le_of_lt inside), Function.iterate_succ_apply']
    simp only [tickLoop, items, List.cons_append, List.head?_cons, Option.toList_some,
      EraseTick.mk.injEq, and_true]
    exact ⟨(Int32.ofNat_add count 1).symm, List.take_append_getElem inside⟩

private theorem test_iff (few : s.delReqidList.items.length < 2 ^ 31) {count : Nat}
    (within : count ≤ s.delReqidList.items.length) :
    tickLoop.test (tickLoop.round^[count] { client := s }) = true ↔
      count < s.delReqidList.items.length - count +
        (s.delReqidList.items.take count).countP fun id => s.flagOf id = some .eraseState := by
  have most : (s.delReqidList.items.take count).countP
      (fun id => s.flagOf id = some .eraseState) ≤ count :=
    Nat.le_trans List.countP_le_length (List.length_take_le _ _)
  have size := size_rounds own distinct marks within
  rw [SafeQueue.size] at size
  rw [round_eq own distinct marks within, test_iff_lt (by omega) (by omega), size]

/-- One run of the loop in `erase_msg_timer` handles every listed id once exactly
when the list can be counted in an `int` and no id but the last one is dropped. -/
theorem handlesAll_iff :
    (∃ t, tickLoop.Exits { client := s } t ∧ t.handled.Perm s.delReqidList.items ∧
        TickDone s t.client) ↔
      s.delReqidList.items.length < 2 ^ 31 ∧
        ∀ id ∈ s.delReqidList.items.dropLast, s.flagOf id = some .eraseState := by
  constructor
  · rintro ⟨t, exits, perm, -⟩
    obtain ⟨count, ⟨tests, -⟩, rfl⟩ := Loop.rounds_of_exits exits
    obtain ⟨index, length⟩ := rounds_count tests
    have all : count = s.delReqidList.items.length := length.symm.trans perm.length_eq
    subst all
    have few : s.delReqidList.items.length < 2 ^ 31 := by
      have most := (tickLoop.round^[s.delReqidList.items.length] { client := s }).i.toInt_lt
      omega
    refine ⟨few, ?_⟩
    by_cases empty : s.delReqidList.items.length = 0
    · rw [List.length_eq_zero_iff.mp empty]
      simp
    · have before := tests (s.delReqidList.items.length - 1) (by omega)
      rw [test_iff own distinct marks few (Nat.sub_le _ _), ← List.dropLast_eq_take] at before
      have full : s.delReqidList.items.dropLast.countP
          (fun id => s.flagOf id = some .eraseState) = s.delReqidList.items.dropLast.length := by
        have most := List.countP_le_length (p := fun id => s.flagOf id = some .eraseState)
          (l := s.delReqidList.items.dropLast)
        rw [List.length_dropLast] at most ⊢
        omega
      intro id member
      simpa using List.countP_eq_length.mp full id member
  · rintro ⟨few, states⟩
    have rounds : tickLoop.Rounds s.delReqidList.items.length { client := s } := by
      constructor
      · intro earlier before
        rw [test_iff own distinct marks few (Nat.le_of_lt before)]
        have full : (s.delReqidList.items.take earlier).countP
            (fun id => s.flagOf id = some .eraseState) = earlier := by
          rw [List.countP_eq_length.mpr, List.length_take_of_le (Nat.le_of_lt before)]
          intro id member
          rw [List.dropLast_eq_take] at states
          have early := List.take_subset_take_left s.delReqidList.items
            (Nat.le_sub_one_of_lt before) member
          simpa using states id early
        omega
      · have fails := test_iff own distinct marks few (Nat.le_refl _)
        have most := List.countP_le_length (p := fun id => s.flagOf id = some .eraseState)
          (l := s.delReqidList.items)
        rw [List.take_length] at fails
        refine Bool.eq_false_iff.mpr fun holds => ?_
        have less := fails.mp holds
        omega
    refine ⟨_, Loop.exits_of_rounds rounds, ?_, ?_⟩
    · rw [round_eq own distinct marks (Nat.le_refl _), List.take_length]
    · rw [round_eq own distinct marks (Nat.le_refl _)]
      have whole := met_rounds own distinct marks (Nat.le_refl _)
      rw [List.take_length, List.drop_length] at whole
      exact whole.done own

end Distinct

/-- Two requests that have been read, with the marks of their entries. -/
def twoListed (first second : ClientStatusType) : ClientLoop :=
  { start .on with
    recvMsgMap := (Std.TreeMap.empty.insert 1 0).insert 2 1
    delReqidList := { items := [1, 2] }
    entries := fun p => { RpcStruct.new with eraseFlag := if p = 0 then first else second }
    allocated := 2 }

theorem twoListed_mapped {first second : ClientStatusType} {id : Int32} {p : Ptr}
    (found : (twoListed first second).recvMsgMap[id]? = some p) :
    (id = 1 ∧ p = 0) ∨ (id = 2 ∧ p = 1) := by
  simp only [twoListed, Std.TreeMap.getElem?_insert, Std.LawfulEqCmp.compare_eq_iff_eq] at found
  split at found
  · exact .inr ⟨by symm; assumption, (Option.some.inj found).symm⟩
  · split at found
    · exact .inl ⟨by symm; assumption, (Option.some.inj found).symm⟩
    · simp at found

theorem twoListed_own (first second : ClientStatusType) : OwnEntries (twoListed first second) := by
  intro id other p found again
  rcases twoListed_mapped found with ⟨rfl, rfl⟩ | ⟨rfl, rfl⟩
  · rcases twoListed_mapped again with ⟨rfl, -⟩ | ⟨-, wrong⟩
    · rfl
    · cases wrong
  · rcases twoListed_mapped again with ⟨-, wrong⟩ | ⟨rfl, -⟩
    · cases wrong
    · rfl

theorem twoListed_marks {first second : ClientStatusType}
    (one : first = .eraseState ∨ first = .eraseExec)
    (two : second = .eraseState ∨ second = .eraseExec) :
    ∀ id ∈ (twoListed first second).delReqidList.items, ∀ p,
      (twoListed first second).recvMsgMap[id]? = some p →
      ((twoListed first second).entries p).Marked := by
  intro id member p found
  rcases twoListed_mapped found with ⟨rfl, rfl⟩ | ⟨rfl, rfl⟩
  · exact one
  · exact two

theorem twoListed_handled :
    ∃ t, tickLoop.Exits { client := twoListed .eraseState .eraseExec } t ∧
      t.handled.Perm [1, 2] ∧ TickDone (twoListed .eraseState .eraseExec) t.client := by
  have own := twoListed_own .eraseState .eraseExec
  have distinct : (twoListed .eraseState .eraseExec).delReqidList.items.Nodup := by decide
  have marks := @twoListed_marks .eraseState .eraseExec (.inl rfl) (.inr rfl)
  have few : (twoListed .eraseState .eraseExec).delReqidList.items.length < 2 ^ 31 := by decide
  have states : ∀ id ∈ (twoListed .eraseState .eraseExec).delReqidList.items.dropLast,
      (twoListed .eraseState .eraseExec).flagOf id = some .eraseState := by
    intro id member
    cases List.mem_singleton.mp (show id ∈ [1] from member)
    decide +kernel
  exact (handlesAll_iff own distinct marks).mpr ⟨few, states⟩

/-- With two entries to be deleted the index reaches the size after one of them. -/
theorem twoExecuted_left :
    OwnEntries (twoListed .eraseExec .eraseExec) ∧
      (twoListed .eraseExec .eraseExec).delReqidList.items.Nodup ∧
      (∀ id ∈ (twoListed .eraseExec .eraseExec).delReqidList.items, ∀ p,
        (twoListed .eraseExec .eraseExec).recvMsgMap[id]? = some p →
        ((twoListed .eraseExec .eraseExec).entries p).Marked) ∧
      ¬ ∃ t, tickLoop.Exits { client := twoListed .eraseExec .eraseExec } t ∧
        t.handled.Perm (twoListed .eraseExec .eraseExec).delReqidList.items ∧
        TickDone (twoListed .eraseExec .eraseExec) t.client := by
  refine ⟨twoListed_own _ _, by decide, twoListed_marks (.inr rfl) (.inr rfl), ?_⟩
  rintro ⟨t, exits, perm, -⟩
  have one : tickLoop.Rounds 1 { client := twoListed .eraseExec .eraseExec } := by
    unfold Loop.Rounds
    decide +kernel
  rw [exits.unique (Loop.exits_of_rounds one)] at perm
  revert perm
  decide +kernel

end RpcLoop.ClientLoop
