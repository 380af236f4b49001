import RpcLoop.Client.TimeoutCover

/-! What the erase timer does to `del_reqid_list`, and whether every request
that timed out gets into it. Only `read` lists an id, so a timeout that nobody
reads is never reclaimed. -/

namespace RpcLoop.ClientLoop

open Foundation Asio Shared

/-- Runs of the erase loop list nothing new; an id leaves the list only when it
is not in the map any more, and an entry leaves the map only when it is listed. -/
structure Sweeps (s next : ClientLoop) : Prop where
  sub : ∀ (id : Int32) (p : Ptr), next.recvMsgMap[id]? = some p → s.recvMsgMap[id]? = some p
  old : ∀ id ∈ next.delReqidList.items, id ∈ s.delReqidList.items
  listed : ∀ id ∈ s.delReqidList.items,
    id ∈ next.delReqidList.items ∨ next.recvMsgMap[id]? = none
  gone : ∀ (id : Int32) (p : Ptr), s.recvMsgMap[id]? = some p →
    next.recvMsgMap[id]? = some p ∨ id ∈ s.delReqidList.items

/-- An event in which `erase_msg_timer` runs. -/
def Event.ticks : Event → Bool
  | .handleConnect _ error => !error
  | .eraseTimer _ => true
  | _ => false

/-- Every entry whose request timed out is in the deletion list. -/
def TimeoutsListed (s : ClientLoop) : Prop :=
  ∀ (id : Int32) (p : Ptr), s.recvMsgMap[id]? = some p → (s.entries p).status = .timeout →
    id ∈ s.delReqidList.items

/-- A timer that runs out finds its entry listed already, or out of the map. -/
def TimesOutListed (s : ClientLoop) (event : Event) (_ : ClientLoop) : Prop :=
  ∀ p, event = .timeout p → ∀ id : Int32, s.recvMsgMap[id]? = some p → id ∈ s.delReqidList.items

instance (s : ClientLoop) : Decidable (TimeoutsListed s) :=
  decidable_of_iff (∀ pair ∈ s.recvMsgMap.toList, (s.entries pair.2).status = .timeout →
      pair.1 ∈ s.delReqidList.items)
    ⟨fun all id p found => all (id, p) (Std.TreeMap.mem_toList_iff_getElem?_eq_some.mpr found),
      fun all pair member =>
        all pair.1 pair.2 (Std.TreeMap.mem_toList_iff_getElem?_eq_some.mp member)⟩

variable {layout : IntLayout} {s next : ClientLoop} {event : Event}

/-! ### The deletion list -/

theorem Sweeps.refl (s : ClientLoop) : Sweeps s s where
  sub _ _ found := found
  old _ member := member
  listed _ member := .inl member
  gone _ _ found := .inl found

theorem Sweeps.trans {middle : ClientLoop} (first : Sweeps s middle) (second : Sweeps middle next) :
    Sweeps s next where
  sub id p found := first.sub id p (second.sub id p found)
  old id member := first.old id (second.old id member)
  listed id member := by
    rcases first.listed id member with still | absent
    · exact second.listed id still
    · right
      cases found : next.recvMsgMap[id]? with
      | none => rfl
      | some p => cases absent.symm.trans (second.sub id p found)
  gone id p found := by
    rcases first.gone id p found with still | member
    · rcases second.gone id p still with kept | member
      · exact .inl kept
      · exact .inr (first.old id member)
    · exact .inr member

/-- A round takes the first id; it goes back to the end unless its entry is gone. -/
theorem eraseOne_sweeps (s : ClientLoop) : Sweeps s s.eraseOne := by
  cases items : s.delReqidList.items with
  | nil =>
    rw [eraseOne_nil items]
    exact .refl s
  | cons reqid rest =>
    have known : ∀ id ∈ rest ++ [reqid], id ∈ s.delReqidList.items := by
      intro id member
      rw [items]
      simpa [or_comm] using member
    have kept : ∀ id ∈ s.delReqidList.items, id ∈ rest ++ [reqid] := by
      intro id member
      rw [items] at member
      simpa [or_comm] using member
    have erasure := eraseOne_cases items
    generalize s.eraseOne = next at erasure ⊢
    cases erasure with
    | absent missing =>
      refine ⟨fun _ _ same => same, fun id member => known id (List.mem_append_left _ member), ?_,
        fun _ _ same => .inl same⟩
      intro id member
      rcases List.mem_append.mp (kept id member) with later | first
      · exact .inl later
      · exact .inr (List.mem_singleton.mp first ▸ missing)
    | erased p found exec =>
      refine ⟨fun _ _ => getElem?_of_erase,
        fun id member => known id (List.mem_append_left _ member), ?_, ?_⟩
      · intro id member
        rcases List.mem_append.mp (kept id member) with later | first
        · exact .inl later
        · exact .inr (by simp [List.mem_singleton.mp first])
      · intro id q same
        by_cases equal : id = reqid
        · rw [equal, items]
          exact .inr List.mem_cons_self
        · exact .inl ((getElem?_erase_of_ne equal _).trans same)
    | marked p found state =>
      exact ⟨fun _ _ same => same, known, fun id member => .inl (kept id member),
        fun _ _ same => .inl same⟩
    | kept p found unmarked =>
      exact ⟨fun _ _ same => same, known, fun id member => .inl (kept id member),
        fun _ _ same => .inl same⟩

private theorem eraseLoop_sweeps (rounds i : Nat) (s : ClientLoop) : Sweeps s
    (eraseLoop rounds i s) := by
  induction rounds generalizing i s with
  | zero => exact .refl s
  | succ rounds ih =>
    unfold eraseLoop
    split
    · exact (eraseOne_sweeps s).trans (ih (i + 1) s.eraseOne)
    · exact .refl s

private theorem eraseMsgTimer_sweeps (s : ClientLoop) : Sweeps s s.eraseMsgTimer := by
  have sweeps := eraseLoop_sweeps s.delReqidList.size 0 s
  exact ⟨sweeps.sub, sweeps.old, sweeps.listed, sweeps.gone⟩

/-- The two handlers that run `erase_msg_timer` have changed nothing it looks at. -/
theorem tick_of_step (ticks : event.ticks = true)
    (taken : (machine layout).step s event = some next) :
    ∃ link timer, next = { s with link := link, eTimer := timer }.eraseMsgTimer := by
  cases event with
  | handleConnect index error =>
    cases error with
    | true => cases ticks
    | false =>
      simp only [machine, ClientLoop.step, invokeConnect, Option.bind_eq_bind,
        Option.bind_eq_some_iff] at taken
      obtain ⟨op, start, taken⟩ := taken
      split at taken
      · simp only [handleConnect, Bool.false_eq_true, if_false, Option.bind_eq_bind,
          Option.bind_eq_some_iff, Option.pure_def, Option.some.injEq] at taken
        obtain ⟨connected, reading, rfl⟩ := taken
        obtain ⟨link, started, rfl⟩ := doReadHead_cases reading
        exact ⟨link, s.eTimer, rfl⟩
      · cases taken
  | eraseTimer error =>
    cases error with
    | true =>
      simp only [machine, ClientLoop.step, if_true, Option.bind_eq_bind, Option.bind_eq_some_iff,
        Option.pure_def, Option.some.injEq] at taken
      obtain ⟨timer, moved, rfl⟩ := taken
      exact ⟨s.link, timer, rfl⟩
    | false =>
      simp only [machine, ClientLoop.step, Bool.false_eq_true, if_false, Option.bind_eq_bind,
        Option.bind_eq_some_iff, Option.pure_def, Option.some.injEq] at taken
      obtain ⟨timer, moved, rfl⟩ := taken
      exact ⟨s.link, timer, rfl⟩
  | _ => cases ticks

theorem tick_sweeps (ticks : event.ticks = true)
    (taken : (machine layout).step s event = some next) : Sweeps s next := by
  obtain ⟨link, timer, rfl⟩ := tick_of_step ticks taken
  have sweeps := eraseMsgTimer_sweeps { s with link := link, eTimer := timer }
  exact ⟨sweeps.sub, sweeps.old, sweeps.listed, sweeps.gone⟩

/-! ### Timeouts -/

theorem TimeoutsListed.keep (listed : TimeoutsListed s)
    (map : ∀ (id : Int32) (p : Ptr), next.recvMsgMap[id]? = some p → s.recvMsgMap[id]? = some p)
    (list : ∀ (id : Int32) (p : Ptr), next.recvMsgMap[id]? = some p →
      id ∈ s.delReqidList.items → id ∈ next.delReqidList.items)
    (status : ∀ (id : Int32) (p : Ptr), s.recvMsgMap[id]? = some p →
      (next.entries p).status = .timeout → (s.entries p).status = .timeout) :
    TimeoutsListed next := by
  intro id p found timedOut
  have before := map id p found
  exact list id p found (listed id p before (status id p before timedOut))

theorem TimeoutsListed.store (listed : TimeoutsListed s) {p : Ptr} {m : RpcStruct}
    (status : m.status = .timeout → (s.entries p).status = .timeout) :
    TimeoutsListed (s.store p m) := by
  refine listed.keep (fun _ _ found => found) (fun _ _ _ member => member) ?_
  intro id q found timedOut
  by_cases equal : q = p
  · subst equal
    exact status (by simpa [ClientLoop.store] using timedOut)
  · simpa [ClientLoop.store, equal] using timedOut

theorem TimeoutsListed.sweeps (listed : TimeoutsListed s) (sweeps : Sweeps s next)
    (status : ∀ p, (next.entries p).status = (s.entries p).status) : TimeoutsListed next := by
  refine listed.keep sweeps.sub ?_ fun _ p _ timedOut => (status p).symm.trans timedOut
  intro id p found member
  rcases sweeps.listed id member with still | absent
  · exact still
  · cases absent.symm.trans found

theorem TimeoutsListed.step (listed : TimeoutsListed s) (known : PtrsKnown s)
    (taken : (machine layout).step s event = some next) (guarded : TimesOutListed s event next) :
    TimeoutsListed next := by
  cases transition_of_step taken with
  | inserted caller m stage =>
    intro id p found timedOut
    simp only [Std.TreeMap.getElem?_insert] at found
    split at found
    · cases found
      simp [recvEntry, RpcStruct.new, RpcStruct.ofHead] at timedOut
    · have other : p ≠ s.allocated := Nat.ne_of_lt (known.map id p found)
      exact listed id p found (by simpa [other] using timedOut)
  | armed caller m p stage => exact listed.store fun timedOut => timedOut
  | marked caller p stage final => exact listed.store fun timedOut => timedOut
  | listed caller p stage =>
    exact listed.keep (fun _ _ found => found) (fun _ _ _ member => List.mem_append_left _ member)
      fun _ _ _ timedOut => timedOut
  | receivedMsg index op p length bytes filled start live up kind copied =>
    have frame := RpcStruct.copyIn_frame copied
    exact listed.store fun timedOut => by rwa [frame] at timedOut
  | headKnown index op head p known' readMsg link start done opened kind present headed buffer
      reading =>
    have first := RpcStruct.setHead_frame headed
    have second := RpcStruct.newData_frame buffer
    exact listed.store fun timedOut => by rwa [second, first] at timedOut
  | headUnknown index op head readMsg link start done opened kind unknown buffer reading =>
    -- The new object is not in the map.
    refine listed.keep (fun _ _ found => found) (fun _ _ _ member => member) ?_
    intro id p found timedOut
    have other : p ≠ s.allocated := Nat.ne_of_lt (known.map id p found)
    simpa [ClientLoop.store, other] using timedOut
  | msgFailed index op p length link start failed opened kind closing =>
    exact listed.store fun timedOut => by simp [RpcStruct.setStatus] at timedOut
  | msgOk index op p length readMsg link start done opened kind body reading =>
    exact listed.store (m := readMsg.setStatus .readOk) fun timedOut => by
      simp [RpcStruct.setStatus] at timedOut
  | expired p timer moved => exact listed.store fun timedOut => timedOut
  | timedOut p timer moved =>
    intro id q found timedOut
    by_cases equal : q = p
    · exact guarded p rfl id (equal ▸ found)
    · exact listed id q found (by simpa [ClientLoop.store, equal] using timedOut)
  | timeoutCancelled p timer moved => exact listed.store fun timedOut => timedOut
  | connectOk index op link erased start done reading erases =>
    refine listed.sweeps (tick_sweeps rfl taken) fun p => ?_
    rw [erases.entry p]
  | erased error timer after moved erases =>
    refine listed.sweeps (tick_sweeps rfl taken) fun p => ?_
    rw [erases.entry p]
  | _ => exact listed

private theorem timesOutListed_of_listed (taken : (machine layout).step s event = some next)
    (listed : TimeoutsListed next) : TimesOutListed s event next := by
  rintro p rfl id found
  cases transition_of_step taken with
  | timedOut p timer moved =>
    refine listed id p found ?_
    simp [ClientLoop.store, RpcStruct.setTimeout, RpcStruct.setStatus]

/-- Every timed out entry is scheduled for deletion in exactly the runs whose
timers run out only for entries that are scheduled already. -/
theorem timeoutsListed_iff_timesOutListed (layout : IntLayout) (csq : ClientSendQueue)
    (schedule : List Event) :
    (machine layout).Always TimeoutsListed (start csq) schedule ↔
      (machine layout).AllSteps TimesOutListed (start csq) schedule := by
  apply Machine.always_iff fun s => TimeoutsListed s ∧ PtrsKnown s
  · exact fun held => held.1
  · intro before label after held taken
    exact ⟨timesOutListed_of_listed taken, held.1.step held.2 taken⟩
  · intro before label after held taken guarded
    exact ⟨held.1.step held.2 taken guarded, held.2.step (transition_of_step taken)⟩
  · exact ⟨fun id p found => by simp [start] at found, .initial csq⟩

/-- A request that is never answered and whose caller never reads. -/
def abandoned : List Event :=
  [.beginWrite [some 7] 1, .push 0, .insert 0, .arm 0, .post 0, .expire 1, .timeout 1]

/-- It stays in the map without being scheduled for deletion. -/
theorem abandoned_not_listed :
    ¬ (machine .littleEndian).Always TimeoutsListed (start .on) abandoned := by
  decide +kernel

end RpcLoop.ClientLoop
