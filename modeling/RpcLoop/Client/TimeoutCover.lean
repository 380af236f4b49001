import RpcLoop.Client.Pointers

/-! Whether a waiting `read` can return. Its status loop has no limit of its own
and relies on the timer that `newMsgBuf` arms for the entry. -/

namespace RpcLoop

open Foundation Asio Shared

namespace RpcStruct

/-- A status that ends the loop in `read`. -/
def Final (m : RpcStruct) : Prop := m.status = .error ∨ m.status = .readOk ∨ m.status = .timeout

/-- The timeout wait is armed and not cancelled, or it has expired and its
handler is queued without an error. -/
def Due (m : RpcStruct) : Prop := 0 < m.timer.pending ∨ 0 < m.timer.expired

private theorem setStatus_final {m : RpcStruct} {v : ClientStatusType}
    (final : v = .error ∨ v = .readOk ∨ v = .timeout) : (m.setStatus v).Final := final

private theorem doInitTimer_due (m : RpcStruct) : m.doInitTimer.Due := .inl (Nat.succ_pos _)

/-- What happens to a timer apart from its cancellation leaves it due. -/
theorem Due.expire {m : RpcStruct} {timer : DeadlineTimer} (moved : m.timer.expire = some timer) :
    Due { m with timer := timer } := by
  have expired := (DeadlineTimer.expire_eq_some moved).2
  right
  simp only
  omega

theorem Due.takeCancelled {m : RpcStruct} {timer : DeadlineTimer} (due : m.Due)
    (moved : m.timer.takeCancelled = some timer) : Due { m with timer := timer } := by
  obtain ⟨expired, pending⟩ := DeadlineTimer.takeCancelled_eq_some moved
  simp only [Due] at due ⊢
  rwa [expired, pending]

/-- Nothing has to happen, or something will, for the loop in `read` to end. -/
def Ends (m : RpcStruct) : Prop := m.Final ∨ m.Due

theorem Ends.same {m other : RpcStruct} (ends : m.Ends) (timer : other.timer = m.timer)
    (status : other.status = m.status) : other.Ends := by
  simpa only [Ends, Final, Due, timer, status] using ends

end RpcStruct

namespace ClientLoop

/-- No caller stands between the insertion of the entry and `do_init_timer`. -/
def PastArming (s : ClientLoop) (p : Ptr) : Prop := ∀ m, .inserted m p ∉ s.writers

/-- Every entry in the map with an undecided status has its timer due, and the
call of `read` on an entry returns after at most its expiry and its timeout. -/
structure WaitsCovered (layout : IntLayout) (s : ClientLoop) : Prop where
  entries : ∀ (reqId : Int32) (p : Ptr), s.recvMsgMap[reqId]? = some p → PastArming s p →
    ¬ (s.entries p).Final → (s.entries p).Due
  reads : ∀ caller p, s.readers[caller]? = some (.waiting p) → PastArming s p →
    ∃ waits, (waits = [] ∨ waits = [.timeout p] ∨ waits = [.expire p, .timeout p]) ∧
      ((machine layout).run s (waits ++ [.mark caller])).isSome

/-- An entry will end every wait for it, or its caller is about to arm it. -/
def Covers (s : ClientLoop) (p : Ptr) : Prop :=
  (∃ m, .inserted m p ∈ s.writers) ∨ (s.entries p).Ends

variable {layout : IntLayout} {s next : ClientLoop} {event : Event} {p : Ptr}

theorem Covers.keep (covers : Covers s p)
    (writers : ∀ m, .inserted m p ∈ s.writers → .inserted m p ∈ next.writers)
    (entry : (s.entries p).Ends → (next.entries p).Ends) : Covers next p := by
  rcases covers with ⟨m, waiting⟩ | ends
  · exact .inl ⟨m, writers m waiting⟩
  · exact .inr (entry ends)

theorem Covers.store (covers : Covers s p) {q : Ptr} {m : RpcStruct}
    (ends : q = p → (s.entries p).Ends → m.Ends) : Covers (s.store q m) p := by
  refine covers.keep (fun _ waiting => waiting) fun before => ?_
  by_cases equal : p = q
  · subst equal
    simpa [ClientLoop.store] using ends rfl before
  · simpa [ClientLoop.store, equal] using before

theorem Covers.erases (covers : Covers s p) (erases : Erases s next) : Covers next p := by
  refine covers.keep ?_ fun ends => ?_
  · rw [erases.rest]
    exact fun _ waiting => waiting
  · rw [erases.entry p]
    exact ends.same rfl rfl

/-- No step takes away what covers an entry: whatever cancels a timer also sets a
final status. -/
theorem Covers.step (covers : Covers s p) (known : p < s.allocated)
    (transition : Transition layout s event next) : Covers next p := by
  cases transition with
  | begun msg msgL res built =>
    exact covers.keep (fun _ waiting => List.mem_append_left _ waiting) id
  | pushed caller m stage mode =>
    exact covers.keep (fun _ waiting => mem_set_of_ne stage waiting (by simp)) id
  | unqueued caller m stage mode =>
    exact covers.keep (fun _ waiting => mem_set_of_ne stage waiting (by simp)) id
  | inserted caller m stage =>
    refine covers.keep (fun _ waiting => mem_set_of_ne stage waiting (by simp)) fun ends => ?_
    simpa [Nat.ne_of_lt known] using ends
  | armed caller m q stage =>
    by_cases equal : p = q
    · subst equal
      right
      simpa [ClientLoop.store] using .inr (s.entries p).doInitTimer_due
    · refine covers.keep (fun _ waiting => ?_) fun ends => ?_
      · exact mem_set_of_ne stage waiting (by simp [equal])
      · simpa [ClientLoop.store, equal] using ends
  | returned caller m stage =>
    exact covers.keep (fun _ waiting => mem_eraseIdx_of_ne stage waiting (by simp)) id
  | marked caller q stage final =>
    have stored := covers.store (q := q) (m := { s.entries q with eraseFlag := .eraseState })
    refine (stored ?_).keep (fun _ waiting => waiting) id
    rintro rfl ends
    exact ends.same rfl rfl
  | receivedMsg index op q length bytes filled start live up kind copied =>
    have frame := RpcStruct.copyIn_frame copied
    refine (covers.store (q := q) (m := filled) ?_).keep (fun _ waiting => waiting) id
    rintro rfl ends
    exact ends.same (by rw [frame]) (by rw [frame])
  | headKnown index op head q headed' readMsg link start done opened kind present headed buffer
      reading =>
    have first := RpcStruct.setHead_frame headed
    have second := RpcStruct.newData_frame buffer
    refine (covers.store (q := q) (m := readMsg) ?_).keep (fun _ waiting => waiting) id
    rintro rfl ends
    exact ends.same (by rw [second, first]) (by rw [second, first])
  | headUnknown index op head readMsg link start done opened kind unknown buffer reading =>
    refine (covers.store (q := s.allocated) (m := readMsg) ?_).keep (fun _ waiting => waiting) id
    exact fun same => absurd same (Nat.ne_of_gt known)
  | msgFailed index op q length link start failed opened kind closing =>
    have stored := covers.store (q := q) (m := (s.entries q).setStatus .error)
    exact (stored fun _ _ => .inl (.inl rfl)).keep (fun _ waiting => waiting) id
  | msgOk index op q length readMsg link start done opened kind body reading =>
    have stored := covers.store (q := q) (m := readMsg.setStatus .readOk)
    exact (stored fun _ _ => .inl (.inr (.inl rfl))).keep (fun _ waiting => waiting) id
  | expired q timer moved => exact covers.store fun _ _ => .inr (.expire moved)
  | timedOut q timer moved => exact covers.store fun _ _ => .inl (.inr (.inr rfl))
  | timeoutCancelled q timer moved =>
    refine covers.store ?_
    rintro rfl ends
    exact ends.imp id fun due => due.takeCancelled moved
  | connectOk index op link erased start done reading erases =>
    have before : Covers { s with link := link } p := covers
    exact (before.erases erases).keep (fun _ waiting => waiting) id
  | erased error timer after moved erases =>
    have before : Covers { s with eTimer := timer } p := covers
    exact (before.erases erases).keep (fun _ waiting => waiting) id
  | _ => exact covers

/-- What the map and the waiting callers of `read` point to is covered. -/
structure AllCovered (s : ClientLoop) : Prop where
  ptrs : PtrsKnown s
  map : ∀ (reqId : Int32) (p : Ptr), s.recvMsgMap[reqId]? = some p → Covers s p
  readers : ∀ p, .waiting p ∈ s.readers → p < s.allocated ∧ Covers s p

theorem AllCovered.initial (csq : ClientSendQueue) : AllCovered (start csq) where
  ptrs := .initial csq
  map reqId p found := by simp [start] at found
  readers p member := by cases member

private theorem allocated_step (transition : Transition layout s event next) :
    s.allocated ≤ next.allocated := by
  cases transition with
  | begun msg msgL res built => exact Nat.le_succ _
  | inserted caller m stage => exact Nat.le_succ _
  | headUnknown index op head readMsg link start done opened kind unknown buffer reading =>
    exact Nat.le_succ _
  | connectOk index op link erased start done reading erases =>
    exact Nat.le_of_eq (by rw [erases.rest])
  | erased error timer after moved erases =>
    exact Nat.le_of_eq (by rw [erases.rest])
  | _ => exact Nat.le_refl _

private theorem map_step (transition : Transition layout s event next) {reqId : Int32}
    (found : next.recvMsgMap[reqId]? = some p) :
    s.recvMsgMap[reqId]? = some p ∨ ∃ m, .inserted m p ∈ next.writers := by
  cases transition with
  | inserted caller m stage =>
    simp only [Std.TreeMap.getElem?_insert] at found
    split at found
    · cases found
      exact .inr ⟨m, List.mem_set (List.getElem?_eq_some_iff.mp stage).1 _⟩
    · exact .inl found
  | connectOk index op link erased start done reading erases => exact .inl (erases.sub _ _ found)
  | erased error timer after moved erases => exact .inl (erases.sub _ _ found)
  | _ => exact .inl found

private theorem readers_step (transition : Transition layout s event next)
    (member : .waiting p ∈ next.readers) :
    .waiting p ∈ s.readers ∨ ∃ reqId : Int32, s.recvMsgMap[reqId]? = some p := by
  cases transition with
  | found reqId q present =>
    rcases List.mem_append.mp member with old | new
    · exact .inl old
    · cases List.mem_singleton.mp new
      exact .inr ⟨reqId, present⟩
  | marked caller q stage final =>
    rcases List.mem_or_eq_of_mem_set member with old | new
    · exact .inl old
    · cases new
  | listed caller q stage => exact .inl (List.mem_of_mem_eraseIdx member)
  | connectOk index op link erased start done reading erases =>
    rw [erases.rest] at member
    exact .inl member
  | erased error timer after moved erases =>
    rw [erases.rest] at member
    exact .inl member
  | _ => exact .inl member

theorem AllCovered.step (all : AllCovered s) (transition : Transition layout s event next) :
    AllCovered next where
  ptrs := all.ptrs.step transition
  map reqId p found := by
    rcases map_step transition found with old | new
    · exact (all.map reqId p old).step (all.ptrs.map reqId p old) transition
    · exact .inl new
  readers p member := by
    obtain ⟨known, covers⟩ : p < s.allocated ∧ Covers s p := by
      rcases readers_step transition member with old | ⟨reqId, present⟩
      · exact all.readers p old
      · exact ⟨all.ptrs.map reqId p present, all.map reqId p present⟩
    exact ⟨Nat.lt_of_lt_of_le known (allocated_step transition), covers.step known transition⟩

theorem Covers.ends (covers : Covers s p) (armed : PastArming s p) : (s.entries p).Ends := by
  rcases covers with ⟨m, waiting⟩ | ends
  · exact absurd waiting (armed m)
  · exact ends

/-- A final status lets the waiting call go on. -/
theorem mark_isSome {caller : Nat} (stage : s.readers[caller]? = some (.waiting p))
    (final : (s.entries p).Final) : ((machine layout).run s [.mark caller]).isSome := by
  have passes : (s.entries p).status = .error ∨ (s.entries p).status = .readOk ∨
      (s.entries p).status = .timeout := final
  simp [Machine.run, machine, ClientLoop.step, markEntry, stage, passes]

/-- A queued expiry makes the status final. -/
theorem timeout_isSome {caller : Nat} (stage : s.readers[caller]? = some (.waiting p))
    (expired : 0 < (s.entries p).timer.expired) :
    ((machine layout).run s [.timeout p, .mark caller]).isSome := by
  obtain ⟨timer, moved⟩ := DeadlineTimer.takeExpired_of_pos expired
  have step : (machine layout).step s (.timeout p) =
      some (s.store p (RpcStruct.setTimeout { s.entries p with timer := timer } false)) := by
    simp [machine, ClientLoop.step, withTimer, moved, ClientLoop.store]
  rw [Machine.run_cons, step, Option.bind_some]
  refine mark_isSome stage ?_
  simpa [ClientLoop.store, RpcStruct.setTimeout] using
    RpcStruct.setStatus_final (.inr (.inr rfl))

private theorem expire_isSome {caller : Nat} (stage : s.readers[caller]? = some (.waiting p))
    (pending : 0 < (s.entries p).timer.pending) :
    ((machine layout).run s [.expire p, .timeout p, .mark caller]).isSome := by
  obtain ⟨timer, moved, expired⟩ := DeadlineTimer.expire_of_pos pending
  have step : (machine layout).step s (.expire p) =
      some (s.store p { s.entries p with timer := timer }) := by
    simp [machine, ClientLoop.step, withTimer, moved]
  rw [Machine.run_cons, step, Option.bind_some]
  exact timeout_isSome stage (by simpa [ClientLoop.store] using expired)

theorem AllCovered.waitsCovered (layout : IntLayout) (all : AllCovered s) :
    WaitsCovered layout s where
  entries reqId p found armed undecided := by
    rcases (all.map reqId p found).ends armed with final | due
    · exact absurd final undecided
    · exact due
  reads caller p stage armed := by
    have covers := (all.readers p (List.mem_of_getElem? stage)).2
    rcases covers.ends armed with final | pending | expired
    · exact ⟨[], .inl rfl, mark_isSome stage final⟩
    · exact ⟨_, .inr (.inr rfl), expire_isSome stage pending⟩
    · exact ⟨_, .inr (.inl rfl), timeout_isSome stage expired⟩

/-- Throughout every run, every waiting read is covered by a timer. -/
theorem waits_alwaysCovered (layout : IntLayout) (csq : ClientSendQueue) (schedule : List Event) :
    (machine layout).Always (WaitsCovered layout) (start csq) schedule := by
  apply Machine.always_of_invariant AllCovered (fun all => all.waitsCovered layout)
  · exact fun all taken => all.step (transition_of_step taken)
  · exact .initial csq

end ClientLoop

end RpcLoop
