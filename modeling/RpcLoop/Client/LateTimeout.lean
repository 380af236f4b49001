import RpcLoop.Client.Pointers

/-! Whether a reply that was received can still become a timeout. `set_status`
cancels the timer, which recalls neither an expiry already queued nor a timer
that the caller arms afterwards, and `set_timeout` does not look at the status. -/

namespace RpcLoop

open Foundation Asio Shared

/-- The caller has inserted the entry and not armed its timer yet. -/
def WriteCall.arms (p : Ptr) : WriteCall → Bool
  | .inserted _ q => q == p
  | _ => false

/-- A timer at rest, and a status that is no timeout. -/
structure RpcStruct.AtRest (m : RpcStruct) : Prop where
  pending : m.timer.pending = 0
  expired : m.timer.expired = 0
  status : m.status ≠ .timeout

namespace ClientLoop

/-- The entry that an event's handler gives the status `CT_READ_OK`. -/
def answers (s : ClientLoop) : Event → Option Ptr
  | .handleRead index false =>
    if s.link.opened then
      match s.link.reads[index]? with
      | some op =>
        match op.what with
        | .msg p _ => some p
        | .head _ => none
      | none => none
    else none
  | _ => none

/-- No entry that was once `CT_READ_OK` is `CT_TIMEOUT`. -/
def AnswersLast (s : ClientLoop) : Prop := ∀ p ∈ s.answered, (s.entries p).status ≠ .timeout

/-- A reply is taken only while the entry's timer has no expiry queued and is
not still to be armed. -/
def AnswersInTime (s : ClientLoop) (event : Event) (_ : ClientLoop) : Prop :=
  ∀ p, answers s event = some p →
    (s.entries p).timer.expired = 0 ∧ ∀ m, .inserted m p ∉ s.writers

private theorem unarmed_iff (writers : List WriteCall) (p : Ptr) :
    writers.all (fun w => !w.arms p) = true ↔ ∀ m, .inserted m p ∉ writers := by
  rw [List.all_eq_true]
  constructor
  · intro none m member
    simpa [WriteCall.arms] using none _ member
  · intro none w member
    cases w with
    | inserted m q =>
      have different : q ≠ p := by
        rintro rfl
        exact none m member
      simp [WriteCall.arms, different]
    | _ => rfl

instance (s : ClientLoop) : Decidable (AnswersLast s) :=
  inferInstanceAs (Decidable (∀ p ∈ s.answered, _))

instance (s : ClientLoop) (event : Event) (next : ClientLoop) :
    Decidable (AnswersInTime s event next) :=
  match answer : answers s event with
  | none => isTrue (by simp [AnswersInTime, answer])
  | some p =>
    decidable_of_iff ((s.entries p).timer.expired = 0 ∧ s.writers.all (fun w => !w.arms p) = true)
      (by simp only [AnswersInTime, answer, Option.some.injEq, unarmed_iff, forall_eq'])

/-- What such runs keep: answered entries rest and nobody will arm them. -/
structure Settled (s : ClientLoop) : Prop where
  rest : ∀ p ∈ s.answered, (s.entries p).AtRest
  unarmed : ∀ p ∈ s.answered, ∀ m, .inserted m p ∉ s.writers
  known : ∀ p ∈ s.answered, p < s.allocated

variable {layout : IntLayout} {s next : ClientLoop} {event : Event}

theorem Settled.initial (csq : ClientSendQueue) : Settled (start csq) where
  rest _ member := by cases member
  unarmed _ member := by cases member
  known _ member := by cases member

theorem Settled.answersLast (settled : Settled s) : AnswersLast s :=
  fun p member => (settled.rest p member).status

/-- A step keeps the answered entries when it answers nothing new, changes no
answered entry's timer or status, and inserts nothing for one. -/
theorem Settled.keep (settled : Settled s) (answered : next.answered = s.answered)
    (allocated : s.allocated ≤ next.allocated)
    (entries : ∀ p ∈ s.answered, (next.entries p).timer = (s.entries p).timer ∧
      (next.entries p).status = (s.entries p).status)
    (writers : ∀ p ∈ s.answered, ∀ m, .inserted m p ∈ next.writers → .inserted m p ∈ s.writers) :
    Settled next where
  rest p member := by
    rw [answered] at member
    have old := settled.rest p member
    obtain ⟨timer, status⟩ := entries p member
    exact ⟨timer ▸ old.pending, timer ▸ old.expired, status ▸ old.status⟩
  unarmed p member m waiting := by
    rw [answered] at member
    exact settled.unarmed p member m (writers p member m waiting)
  known p member := by
    rw [answered] at member
    exact Nat.lt_of_lt_of_le (settled.known p member) allocated

/-- A change of one entry that leaves it at rest if it was answered. -/
theorem Settled.store (settled : Settled s) {p : Ptr} {m : RpcStruct}
    (rest : p ∈ s.answered → (s.entries p).AtRest → m.AtRest) : Settled (s.store p m) where
  rest q member := by
    by_cases equal : q = p
    · subst equal
      simpa [ClientLoop.store] using rest member (settled.rest q member)
    · simpa [ClientLoop.store, equal] using settled.rest q member
  unarmed := settled.unarmed
  known := settled.known

theorem Settled.answer (settled : Settled s) {p : Ptr} (rest : (s.entries p).AtRest)
    (unarmed : ∀ m, .inserted m p ∉ s.writers) (known : p < s.allocated) :
    Settled { s with answered := p :: s.answered } where
  rest q member := by
    rcases List.mem_cons.mp member with rfl | old
    · exact rest
    · exact settled.rest q old
  unarmed q member := by
    rcases List.mem_cons.mp member with rfl | old
    · exact unarmed
    · exact settled.unarmed q old
  known q member := by
    rcases List.mem_cons.mp member with rfl | old
    · exact known
    · exact settled.known q old

private theorem atRest_of_same {m other : RpcStruct} (rest : m.AtRest)
    (timer : other.timer = m.timer)
    (status : other.status = m.status) : other.AtRest :=
  ⟨timer ▸ rest.pending, timer ▸ rest.expired, status ▸ rest.status⟩

private theorem inserted_set {caller : Nat} {v : WriteCall} {m : Outgoing} {p : Ptr}
    (member : .inserted m p ∈ s.writers.set caller v) :
    .inserted m p ∈ s.writers ∨ .inserted m p = v :=
  List.mem_or_eq_of_mem_set member

theorem Settled.erases (settled : Settled s) (erases : Erases s next) : Settled next := by
  have rest := erases.rest
  refine settled.keep (by rw [rest]) (by rw [rest]) ?_ ?_
  · intro p _
    rw [erases.entry p]
    exact ⟨rfl, rfl⟩
  · intro p _ m waiting
    rw [rest] at waiting
    exact waiting

private theorem answers_msgOk {index : Nat} {op : Operation Receive} {p : Ptr} {length : Int32}
    (start : s.link.reads[index]? = some op) (opened : s.link.opened = true)
    (kind : op.what = .msg p length) : answers s (.handleRead index false) = some p := by
  simp [answers, start, opened, kind]

theorem Settled.step (settled : Settled s) (known : PtrsKnown s)
    (transition : Transition layout s event next) (guarded : AnswersInTime s event next) :
    Settled next := by
  cases transition with
  | begun msg msgL res built =>
    refine settled.keep rfl (Nat.le_succ _) (fun _ _ => ⟨rfl, rfl⟩) ?_
    intro p _ m waiting
    simpa using waiting
  | pushed caller m stage mode =>
    refine settled.keep rfl (Nat.le_refl _) (fun _ _ => ⟨rfl, rfl⟩) ?_
    intro p _ m waiting
    simpa using inserted_set waiting
  | unqueued caller m stage mode =>
    refine settled.keep rfl (Nat.le_refl _) (fun _ _ => ⟨rfl, rfl⟩) ?_
    intro p _ m waiting
    simpa using inserted_set waiting
  | inserted caller m stage =>
    refine settled.keep rfl (Nat.le_succ _) ?_ ?_
    · intro p member
      have other : p ≠ s.allocated := Nat.ne_of_lt (settled.known p member)
      simp [other]
    · intro p member other waiting
      have different : p ≠ s.allocated := Nat.ne_of_lt (settled.known p member)
      simpa [different] using inserted_set waiting
  | armed caller m p stage =>
    have fresh : p ∉ s.answered := by
      intro member
      exact settled.unarmed p member m (List.mem_of_getElem? stage)
    have stored := settled.store (p := p) (m := (s.entries p).doInitTimer) fun member =>
      absurd member fresh
    refine stored.keep rfl (Nat.le_refl _) (fun _ _ => ⟨rfl, rfl⟩) ?_
    intro q _ other waiting
    rcases inserted_set waiting with old | new
    · exact old
    · cases new
  | returned caller m stage =>
    refine settled.keep rfl (Nat.le_refl _) (fun _ _ => ⟨rfl, rfl⟩) ?_
    exact fun _ _ _ waiting => List.mem_of_mem_eraseIdx waiting
  | marked caller p stage final =>
    have stored := settled.store (p := p) (m := { s.entries p with eraseFlag := .eraseState })
      fun _ rest => atRest_of_same rest rfl rfl
    exact ⟨stored.rest, stored.unarmed, stored.known⟩
  | receivedMsg index op p length bytes filled start live up kind copied =>
    have frame := RpcStruct.copyIn_frame copied
    have stored := settled.store (p := p) (m := filled) fun _ rest =>
      atRest_of_same rest (by rw [frame]) (by rw [frame])
    exact ⟨stored.rest, stored.unarmed, stored.known⟩
  | headKnown index op head p known' readMsg link start done opened kind present headed buffer
      reading =>
    have first := RpcStruct.setHead_frame headed
    have second := RpcStruct.newData_frame buffer
    have stored := settled.store (p := p) (m := readMsg) fun _ rest =>
      atRest_of_same rest (by rw [second, first]) (by rw [second, first])
    exact ⟨stored.rest, stored.unarmed, stored.known⟩
  | headUnknown index op head readMsg link start done opened kind unknown buffer reading =>
    have stored := settled.store (p := s.allocated) (m := readMsg) fun member =>
      absurd (settled.known _ member) (Nat.lt_irrefl _)
    exact ⟨stored.rest, stored.unarmed, fun p member => Nat.lt_succ_of_lt (stored.known p member)⟩
  | msgFailed index op p length link start failed opened kind closing =>
    have stored := settled.store (p := p) (m := (s.entries p).setStatus .error) fun _ rest =>
      ⟨rfl, rest.expired, by simp [RpcStruct.setStatus]⟩
    exact ⟨stored.rest, stored.unarmed, stored.known⟩
  | msgOk index op p length readMsg link start done opened kind body reading =>
    obtain ⟨expired, unarmed⟩ := guarded p (answers_msgOk start opened kind)
    have frame := RpcStruct.newData_frame body
    have timer : readMsg.timer = (s.entries p).timer := by rw [frame]
    have rest : (readMsg.setStatus .readOk).AtRest := by
      refine ⟨rfl, ?_, by simp [RpcStruct.setStatus]⟩
      simpa [RpcStruct.setStatus, RpcStruct.doCloseTimer, timer] using expired
    have stored := settled.store (p := p) (m := readMsg.setStatus .readOk) fun _ _ => rest
    have answered := stored.answer (p := p) (by simpa [ClientLoop.store] using rest) unarmed
      (known.reads op (List.mem_of_getElem? start) _ _ kind)
    exact ⟨answered.rest, answered.unarmed, answered.known⟩
  | expired p timer moved =>
    refine settled.store fun _ rest => ?_
    have pending := (DeadlineTimer.expire_eq_some moved).1
    rw [rest.pending] at pending
    omega
  | timedOut p timer moved =>
    refine settled.store fun _ rest => ?_
    have expired := (DeadlineTimer.takeExpired_eq_some moved).1
    rw [rest.expired] at expired
    omega
  | timeoutCancelled p timer moved =>
    obtain ⟨expired, pending⟩ := DeadlineTimer.takeCancelled_eq_some moved
    exact settled.store fun _ rest =>
      ⟨pending.trans rest.pending, expired.trans rest.expired, rest.status⟩
  | connectOk index op link erased start done reading erases =>
    have before : Settled { s with link := link } := ⟨settled.rest, settled.unarmed, settled.known⟩
    have after := before.erases erases
    exact ⟨after.rest, after.unarmed, after.known⟩
  | erased error timer after moved erases =>
    have before : Settled { s with eTimer := timer } :=
      ⟨settled.rest, settled.unarmed, settled.known⟩
    have later := before.erases erases
    exact ⟨later.rest, later.unarmed, later.known⟩
  | _ => exact ⟨settled.rest, settled.unarmed, settled.known⟩

/-- In a run that takes every reply in time, no received reply becomes a timeout. -/
theorem answersLast_of_inTime (layout : IntLayout) (csq : ClientSendQueue) (schedule : List Event)
    (inTime : (machine layout).AllSteps AnswersInTime (start csq) schedule) :
    (machine layout).Always AnswersLast (start csq) schedule := by
  apply Machine.always_of_guarded fun s => Settled s ∧ PtrsKnown s
  · exact fun held => held.1.answersLast
  · intro before label after held taken guarded
    have transition := transition_of_step taken
    exact ⟨held.1.step held.2 transition guarded, held.2.step transition⟩
  · exact ⟨.initial csq, .initial csq⟩
  · exact inTime

/-- The header of a reply with a one-byte body. -/
def replyHeader : List UInt8 := [1, 0, 0, 0, 1, 0, 0, 0, 8, 0, 0, 0]

/-- A whole `write` is sent and its reply's header received. -/
def replyStarted : List Event :=
  [.connected 0, .handleConnect 0 false, .beginWrite [some 7] 1, .push 0, .insert 0, .arm 0,
    .post 0, .runPosted 0, .sent 0, .handleWrite 0 false, .received 0 replyHeader,
    .handleRead 0 false]

/-- The reply is complete before the timer of its entry expires. -/
def answeredInTime : List Event :=
  replyStarted ++ [.received 0 [49, 50, 51, 52, 53, 54, 55, 56, 9], .handleRead 0 false,
    .timeoutCancelled 1]

theorem answeredInTime_last :
    (machine .littleEndian).Always AnswersLast (start .on) answeredInTime :=
  answersLast_of_inTime .littleEndian .on answeredInTime (by decide +kernel)

/-- The timer expires while the body is on its way, and its handler runs after the reply's. -/
def answeredLate : List Event :=
  replyStarted ++ [.expire 1, .received 0 [49, 50, 51, 52, 53, 54, 55, 56, 9],
    .handleRead 0 false, .timeout 1]

/-- The received reply is turned into a timeout. -/
theorem answeredLate_times_out :
    ¬ (machine .littleEndian).Always AnswersLast (start .on) answeredLate := by
  decide +kernel

end ClientLoop

end RpcLoop
