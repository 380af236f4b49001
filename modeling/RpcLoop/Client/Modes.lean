import RpcLoop.Client.Conservation
import RpcLoop.Client.Registration
import RpcLoop.Client.SingleWriter
import RpcLoop.Client.Wakeup

/-! What one caller's messages look like on a connection that stays up, with a
queue and without. In both modes the messages handed over, followed by those on
their way, are the messages written so far. -/

namespace RpcLoop

open Foundation Asio Shared

/-- The message of a call that has not reached its push. -/
def WriteCall.unpushed : WriteCall → Option Outgoing
  | .built m => some m
  | _ => none

/-- The message bound into a posted handler. -/
def Posted.bound : Posted → Option Outgoing
  | .doWriteMsg m => some m
  | _ => none

def Posted.isDoWrite : Posted → Bool
  | .doWrite => true
  | _ => false

namespace ClientLoop

/-- The arguments of the calls of `write` in a schedule. -/
def writeCalls (schedule : List Event) : List (List Cell × Int32) :=
  schedule.filterMap fun
    | .beginWrite msg msgL => some (msg, msgL)
    | _ => none

/-- The messages that such calls build, one after the other. -/
def requests (layout : IntLayout) : Int32 → List (List Cell × Int32) → Option (List RpcStruct)
  | _, [] => some []
  | reqId, (msg, msgL) :: rest => do
    let res ← (requestMsg layout reqId msg msgL).toOption
    let later ← requests layout (reqId + 1) rest
    return res :: later

/-- There is one caller, and no handler overtakes a `do_write(res)` that was
posted before it. -/
def inOrder (s : ClientLoop) : Event → Bool
  | .beginWrite _ _ => s.writers.isEmpty
  | .runPosted index => ((s.posted.take index).filterMap Posted.bound).isEmpty
  | _ => true

/-- A step of one caller's calls on a connection that stays up. -/
def Serial (s : ClientLoop) (event : Event) (next : ClientLoop) : Prop :=
  next.link.clietnStatus = .connOk ∧ inOrder s event = true

/-- Every call has returned and every posted `do_write` handler has run. -/
structure Drained (s : ClientLoop) : Prop where
  writers : s.writers = []
  queued : s.posted.countP Posted.isDoWrite = 0
  direct : s.posted.filterMap Posted.bound = []

/-- A connected client without anything left to send. -/
structure Resting (csq : ClientSendQueue) (s : ClientLoop) : Prop extends Drained s where
  mode : s.csq = csq
  status : s.link.clietnStatus = .connOk
  queue : s.writeMsgQueue.items = []

/-- The messages on their way to `async_write`, the next one first. -/
def onTheWay (s : ClientLoop) : List Outgoing :=
  match s.csq with
  | .on => s.writeMsgQueue.items ++ s.writers.filterMap WriteCall.unpushed
  | .off => s.posted.filterMap Posted.bound ++ s.writers.map WriteCall.msg

/-- What a client on such a connection keeps, apart from its messages. -/
structure OneCaller (s : ClientLoop) : Prop where
  status : s.link.clietnStatus = .connOk
  single : s.writers.length ≤ 1

variable {layout : IntLayout} {s next : ClientLoop} {event : Event}

theorem OneCaller.alone (one : OneCaller s) {caller : Nat} {w : WriteCall}
    (stage : s.writers[caller]? = some w) : caller = 0 ∧ s.writers = [w] := by
  have single := one.single
  obtain ⟨before, after, split, rfl, _⟩ := split_of_getElem? stage
  rw [split] at single
  simp only [List.length_append, List.length_cons] at single
  have first : before = [] := List.length_eq_zero_iff.mp (by omega)
  have last : after = [] := List.length_eq_zero_iff.mp (by omega)
  subst first last
  exact ⟨rfl, split⟩

theorem OneCaller.step (one : OneCaller s) (serial : Serial s event next)
    (transition : Transition layout s event next) : OneCaller next where
  status := serial.1
  single := by
    have single := one.single
    cases transition with
    | begun msg msgL res built =>
      have quiet := List.isEmpty_iff.mp serial.2
      simp [quiet]
    | returned caller m stage =>
      exact Nat.le_trans (List.eraseIdx_sublist s.writers caller).length_le single
    | connectOk index op link erased start done reading erases =>
      rw [erases.rest]
      exact single
    | erased error timer after moved erases =>
      rw [erases.rest]
      exact single
    | pushed caller m stage mode => simpa using single
    | unqueued caller m stage mode => simpa using single
    | inserted caller m stage => simpa using single
    | armed caller m p stage => simpa using single
    | _ => exact single

/-- How a step changes the line of messages handed over and on their way: a new
call puts its message last, and nothing else changes it. -/
inductive Lines (layout : IntLayout) (s : ClientLoop) (event : Event) (next : ClientLoop) :
    Prop where
  | same (index : next.msgIndex = s.msgIndex)
      (line : next.handed ++ next.onTheWay = s.handed ++ s.onTheWay)
      (about : ∀ msg msgL, event ≠ .beginWrite msg msgL)
  | more (msg : List Cell) (msgL : Int32) (m : Outgoing) (about : event = .beginWrite msg msgL)
      (index : next.msgIndex = s.msgIndex + 1)
      (built : requestMsg layout s.msgIndex msg msgL = .ok m.obj)
      (line : next.handed ++ next.onTheWay = s.handed ++ s.onTheWay ++ [m])

/-- With a queue: each message has a handler posted for it, or a caller who will
post one. -/
structure QueueLine (s : ClientLoop) : Prop extends OneCaller s where
  only : QueueOnly s
  enough : s.writeMsgQueue.items.length ≤
    s.posted.countP Posted.isDoWrite + s.writers.countP fun w => w.unpushed.isNone

/-- Without one no handler looks at the queue. -/
structure DirectLine (s : ClientLoop) : Prop extends OneCaller s where
  mode : s.csq = .off
  direct : s.posted.countP Posted.isDoWrite = 0

theorem QueueLine.step (queue : QueueLine s) (serial : Serial s event next)
    (transition : Transition layout s event next) : QueueLine next where
  toOneCaller := queue.toOneCaller.step serial transition
  only := queue.only.step transition
  enough := by
    have enough := queue.enough
    have mode := queue.only.mode
    cases transition with
    | begun msg msgL res built =>
      simp only [List.countP_append]
      omega
    | pushed caller m stage queued =>
      obtain ⟨rfl, writers⟩ := queue.alone stage
      simp [writers, WriteCall.unpushed] at enough ⊢
      omega
    | unqueued caller m stage other => exact absurd mode other
    | inserted caller m stage =>
      obtain ⟨rfl, writers⟩ := queue.alone stage
      simpa [writers, WriteCall.unpushed] using enough
    | armed caller m p stage =>
      obtain ⟨rfl, writers⟩ := queue.alone stage
      simpa [writers, WriteCall.unpushed, ClientLoop.store] using enough
    | returned caller m stage =>
      obtain ⟨rfl, writers⟩ := queue.alone stage
      simpa [writers, WriteCall.unpushed, mode, Posted.isDoWrite] using enough
    | closeAsked => simpa [Posted.isDoWrite] using enough
    | writeNext index op m rest link start done opened queued status popped writing =>
      have size := SafeQueue.size_pop popped
      simp only [SafeQueue.size] at size
      simp only
      omega
    | postedNext index m rest link queued status popped writing =>
      have size := SafeQueue.size_pop popped
      have fewer := countP_eraseIdx Posted.isDoWrite queued
      simp only [SafeQueue.size, Posted.isDoWrite, if_true] at size fewer
      simp only
      omega
    | postedQuiet index handler queued nothing kind =>
      have empty := (nothing queue.status).2
      simp [empty]
    | postedMsg index m link queued status writing =>
      exact absurd (List.mem_of_getElem? queued) (queue.only.posted m)
    | postedClose index link queued closing =>
      have fewer := countP_eraseIdx Posted.isDoWrite queued
      simp only [Posted.isDoWrite, Bool.false_eq_true, if_false] at fewer
      simp only
      omega
    | connectOk index op link erased start done reading erases =>
      rw [erases.rest]
      exact enough
    | erased error timer after moved erases =>
      rw [erases.rest]
      exact enough
    | _ => exact enough

theorem DirectLine.step (direct : DirectLine s) (serial : Serial s event next)
    (transition : Transition layout s event next) : DirectLine next where
  toOneCaller := direct.toOneCaller.step serial transition
  mode := (csq_step transition).trans direct.mode
  direct := by
    have none := direct.direct
    have less : ∀ index, (s.posted.eraseIdx index).countP Posted.isDoWrite = 0 := fun index =>
      Nat.eq_zero_of_le_zero (none ▸ (List.eraseIdx_sublist s.posted index).countP_le)
    cases transition with
    | returned caller m stage =>
      simpa [direct.mode, Posted.isDoWrite] using none
    | closeAsked => simpa [Posted.isDoWrite] using none
    | postedQuiet index handler queued nothing kind => exact less index
    | postedNext index m queue link queued status popped writing => exact less index
    | postedMsg index m link queued status writing => exact less index
    | postedClose index link queued closing => exact less index
    | connectOk index op link erased start done reading erases =>
      rw [erases.rest]
      exact none
    | erased error timer after moved erases =>
      rw [erases.rest]
      exact none
    | _ => exact none

/-- With a queue the line is the handed messages, the queue and the message that
the caller has not pushed yet. -/
theorem QueueLine.lines (queue : QueueLine s) (serial : Serial s event next)
    (transition : Transition layout s event next) : Lines layout s event next := by
  have mode := queue.only.mode
  cases transition with
  | begun msg msgL res built =>
    refine .more msg msgL { addr := s.allocated, obj := res } rfl rfl built ?_
    simp [onTheWay, mode, WriteCall.unpushed]
  | pushed caller m stage queued =>
    obtain ⟨rfl, writers⟩ := queue.alone stage
    refine .same rfl ?_ (by simp)
    simp [onTheWay, mode, writers, List.filterMap_cons, WriteCall.unpushed]
  | unqueued caller m stage other => exact absurd mode other
  | inserted caller m stage =>
    obtain ⟨rfl, writers⟩ := queue.alone stage
    refine .same rfl ?_ (by simp)
    simp [onTheWay, mode, writers, List.filterMap_cons, WriteCall.unpushed]
  | armed caller m p stage =>
    obtain ⟨rfl, writers⟩ := queue.alone stage
    refine .same rfl ?_ (by simp)
    simp [onTheWay, mode, writers, List.filterMap_cons, WriteCall.unpushed, ClientLoop.store]
  | returned caller m stage =>
    obtain ⟨rfl, writers⟩ := queue.alone stage
    refine .same rfl ?_ (by simp)
    simp [onTheWay, mode, writers, List.filterMap_cons, WriteCall.unpushed]
  | writeNext index op m rest link start done opened queued status popped writing =>
    refine .same rfl ?_ (by simp)
    simp [onTheWay, mode, (SafeQueue.pop_eq_some popped).1]
  | postedNext index m rest link queued status popped writing =>
    refine .same rfl ?_ (by simp)
    simp [onTheWay, mode, (SafeQueue.pop_eq_some popped).1]
  | postedMsg index m link queued status writing =>
    exact absurd (List.mem_of_getElem? queued) (queue.only.posted m)
  | closeAsked =>
    refine .same rfl ?_ (by simp)
    simp [onTheWay, mode]
  | postedQuiet index handler queued nothing kind =>
    refine .same rfl ?_ (by simp)
    simp [onTheWay, mode]
  | postedClose index link queued closing =>
    refine .same rfl ?_ (by simp)
    simp [onTheWay, mode]
  | connectOk index op link erased start done reading erases =>
    rw [erases.rest]
    exact .same rfl rfl (by simp)
  | erased error timer after moved erases =>
    rw [erases.rest]
    exact .same rfl rfl (by simp)
  | _ => exact .same rfl rfl (by simp)

/-- Without a queue it is the handed messages, those bound into posted handlers
and the message of the caller. -/
theorem DirectLine.lines (direct : DirectLine s) (serial : Serial s event next)
    (transition : Transition layout s event next) : Lines layout s event next := by
  have mode := direct.mode
  have off : s.csq ≠ .on := by simp [mode]
  have unqueued : ∀ {index : Nat}, s.posted[index]? = some Posted.doWrite → False := by
    intro index found
    have counted := List.countP_eq_zero.mp direct.direct _ (List.mem_of_getElem? found)
    simp [Posted.isDoWrite] at counted
  cases transition with
  | begun msg msgL res built =>
    refine .more msg msgL { addr := s.allocated, obj := res } rfl rfl built ?_
    simp [onTheWay, mode, WriteCall.msg]
  | pushed caller m stage queued => exact absurd queued off
  | unqueued caller m stage other =>
    obtain ⟨rfl, writers⟩ := direct.alone stage
    refine .same rfl ?_ (by simp)
    simp [onTheWay, mode, writers, WriteCall.msg]
  | inserted caller m stage =>
    obtain ⟨rfl, writers⟩ := direct.alone stage
    refine .same rfl ?_ (by simp)
    simp [onTheWay, mode, writers, WriteCall.msg]
  | armed caller m p stage =>
    obtain ⟨rfl, writers⟩ := direct.alone stage
    refine .same rfl ?_ (by simp)
    simp [onTheWay, mode, writers, WriteCall.msg, ClientLoop.store]
  | returned caller m stage =>
    obtain ⟨rfl, writers⟩ := direct.alone stage
    refine .same rfl ?_ (by simp)
    simp [onTheWay, mode, writers, WriteCall.msg, Posted.bound]
  | closeAsked =>
    refine .same rfl ?_ (by simp)
    simp [onTheWay, mode, Posted.bound]
  | writeNext index op m rest link start done opened queued status popped writing =>
    exact absurd queued off
  | postedQuiet index handler queued nothing kind =>
    rw [(nothing direct.status).1] at queued
    exact (unqueued queued).elim
  | postedNext index m rest link queued status popped writing => exact (unqueued queued).elim
  | postedMsg index m link queued status writing =>
    refine .same rfl ?_ (by simp)
    obtain ⟨before, after, split, rfl, erased⟩ := split_of_getElem? queued
    have first := serial.2
    simp only [inOrder, split, List.take_left, List.isEmpty_iff] at first
    simp only [onTheWay, mode, erased]
    rw [split]
    simp [first, Posted.bound]
  | postedClose index link queued closing =>
    have down := Link.doClose_status closing
    exact absurd (serial.1.symm.trans down) (by simp)
  | connectOk index op link erased start done reading erases =>
    rw [erases.rest]
    exact .same rfl rfl (by simp)
  | erased error timer after moved erases =>
    rw [erases.rest]
    exact .same rfl rfl (by simp)
  | _ => exact .same rfl rfl (by simp)

/-! ### Runs -/

private theorem run_lines (invariant : ClientLoop → Prop)
    (keeps : ∀ {s event next}, invariant s → Serial s event next → Transition layout s event next →
      invariant next ∧ Lines layout s event next)
    {final : ClientLoop} {schedule : List Event} (initial : invariant s)
    (serial : (machine layout).AllSteps Serial s schedule)
    (reached : (machine layout).run s schedule = some final) :
    invariant final ∧ ∃ frames, requests layout s.msgIndex (writeCalls schedule) = some frames ∧
      (final.handed ++ final.onTheWay).map Outgoing.obj =
        (s.handed ++ s.onTheWay).map Outgoing.obj ++ frames := by
  induction schedule generalizing s with
  | nil =>
    cases Option.some.inj reached
    exact ⟨initial, [], rfl, (List.append_nil _).symm⟩
  | cons event rest ih =>
    obtain ⟨next, taken, later⟩ := Machine.run_cons_eq_some.mp reached
    have step := serial next taken
    obtain ⟨kept, lines⟩ := keeps initial step.1 (transition_of_step taken)
    obtain ⟨held, frames, built, line⟩ := ih kept step.2 later
    refine ⟨held, ?_⟩
    cases lines with
    | same index unchanged about =>
      refine ⟨frames, ?_, ?_⟩
      · have skipped : writeCalls (event :: rest) = writeCalls rest := by
          cases event with
          | beginWrite msg msgL => exact absurd rfl (about msg msgL)
          | _ => rfl
        rw [skipped, ← index]
        exact built
      · rw [line, unchanged]
    | more msg msgL m about index one longer =>
      subst about
      refine ⟨m.obj :: frames, ?_, ?_⟩
      · have first : writeCalls (.beginWrite msg msgL :: rest) =
            (msg, msgL) :: writeCalls rest := rfl
        rw [index] at built
        simp [first, requests, one, built, Except.toOption]
      · rw [line, longer, List.map_append, List.append_assoc]
        rfl

/-- Once every handler has run nothing is on its way. -/
theorem QueueLine.drained (queue : QueueLine s) (drained : Drained s) : s.onTheWay = [] := by
  have enough := queue.enough
  rw [drained.queued, drained.writers] at enough
  have empty : s.writeMsgQueue.items = [] :=
    List.length_eq_zero_iff.mp (Nat.eq_zero_of_le_zero enough)
  simp [onTheWay, queue.only.mode, empty, drained.writers]

theorem DirectLine.drained (direct : DirectLine s) (drained : Drained s) : s.onTheWay = [] := by
  simp [onTheWay, direct.mode, drained.direct, drained.writers]

theorem Resting.queueLine (resting : Resting .on s) : QueueLine s where
  status := resting.status
  single := by simp [resting.writers]
  only := by
    refine ⟨resting.mode, fun m member => ?_⟩
    have unbound := List.filterMap_eq_nil_iff.mp resting.direct _ member
    cases unbound
  enough := by simp [resting.queue]

theorem Resting.directLine (resting : Resting .off s) : DirectLine s where
  status := resting.status
  single := by simp [resting.writers]
  mode := resting.mode
  direct := resting.queued

/-- In both modes, once the handlers of one caller's calls have run, the client
has handed over each of their messages once and in the order of the calls. -/
theorem modes_send_same (layout : IntLayout) {queued direct queuedFinal directFinal : ClientLoop}
    {queuedSchedule directSchedule : List Event} (queuedRests : Resting .on queued)
    (directRests : Resting .off direct) (index : direct.msgIndex = queued.msgIndex)
    (calls : writeCalls directSchedule = writeCalls queuedSchedule)
    (queuedSerial : (machine layout).AllSteps Serial queued queuedSchedule)
    (directSerial : (machine layout).AllSteps Serial direct directSchedule)
    (queuedRun : (machine layout).run queued queuedSchedule = some queuedFinal)
    (directRun : (machine layout).run direct directSchedule = some directFinal)
    (queuedDone : Drained queuedFinal) (directDone : Drained directFinal) :
    ∃ frames, requests layout queued.msgIndex (writeCalls queuedSchedule) = some frames ∧
      queuedFinal.handed.map Outgoing.obj = queued.handed.map Outgoing.obj ++ frames ∧
      directFinal.handed.map Outgoing.obj = direct.handed.map Outgoing.obj ++ frames := by
  obtain ⟨queue, frames, built, sent⟩ := run_lines QueueLine
    (fun held serial transition => ⟨held.step serial transition, held.lines serial transition⟩)
    queuedRests.queueLine queuedSerial queuedRun
  obtain ⟨line, again, same, also⟩ := run_lines DirectLine
    (fun held serial transition => ⟨held.step serial transition, held.lines serial transition⟩)
    directRests.directLine directSerial directRun
  have before : queued.onTheWay = [] :=
    queuedRests.queueLine.drained queuedRests.toDrained
  have behind : direct.onTheWay = [] :=
    directRests.directLine.drained directRests.toDrained
  rw [queue.drained queuedDone, before, List.append_nil, List.append_nil] at sent
  rw [line.drained directDone, behind, List.append_nil, List.append_nil] at also
  rw [calls, index, built] at same
  cases same
  exact ⟨frames, built, sent, also⟩

/-- A client whose first connect has succeeded. -/
def connectedClient (csq : ClientSendQueue) : ClientLoop :=
  ((machine .littleEndian).run (start csq) comesUp).getD (start csq)

/-- Two calls; the first completed write takes the message of the second handler. -/
def twoQueued : List Event :=
  wholeWrite 7 ++ wholeWrite 8 ++ [.runPosted 0, .sent 0, .handleWrite 0 false, .runPosted 0]

/-- The same calls, with the handler of the first between them. -/
def twoDirect : List Event := wholeWrite 7 ++ [.runPosted 0] ++ wholeWrite 8 ++ [.runPosted 0]

private theorem connectedClient_resting (csq : ClientSendQueue) : Resting csq
    (connectedClient csq) := by
  cases csq with
  | on => exact ⟨⟨rfl, rfl, rfl⟩, rfl, rfl, rfl⟩
  | off => exact ⟨⟨rfl, rfl, rfl⟩, rfl, rfl, rfl⟩

instance (s : ClientLoop) (event : Event) (next : ClientLoop) : Decidable (Serial s event next) :=
  inferInstanceAs (Decidable (_ ∧ _))

private theorem drained_of_run {schedule : List Event} {final : ClientLoop}
    (reached : (machine .littleEndian).run s schedule = some final)
    (outcome : ((machine .littleEndian).run s schedule).map (fun s => (s.writers.length,
      s.posted.length)) = some (0, 0)) : Drained final := by
  rw [reached] at outcome
  obtain ⟨writers, posted⟩ := Prod.mk.inj (Option.some.inj outcome)
  have quiet : final.posted = [] := List.length_eq_zero_iff.mp posted
  exact ⟨List.length_eq_zero_iff.mp writers, by simp [quiet], by simp [quiet]⟩

theorem twoCalls_send_same :
    ∃ queuedFinal directFinal frames,
      (machine .littleEndian).run (connectedClient .on) twoQueued = some queuedFinal ∧
      (machine .littleEndian).run (connectedClient .off) twoDirect = some directFinal ∧
      requests .littleEndian 1 [([some 7], 1), ([some 8], 1)] = some frames ∧
      queuedFinal.handed.map Outgoing.obj = frames ∧
      directFinal.handed.map Outgoing.obj = frames := by
  obtain ⟨queuedFinal, queuedRun⟩ := Option.isSome_iff_exists.mp (show
    ((machine .littleEndian).run (connectedClient .on) twoQueued).isSome by decide +kernel)
  obtain ⟨directFinal, directRun⟩ := Option.isSome_iff_exists.mp (show
    ((machine .littleEndian).run (connectedClient .off) twoDirect).isSome by decide +kernel)
  have queuedDone := drained_of_run queuedRun (by decide +kernel)
  have directDone := drained_of_run directRun (by decide +kernel)
  have queuedIndex : (connectedClient .on).msgIndex = 1 := by decide +kernel
  have directIndex : (connectedClient .off).msgIndex = 1 := by decide +kernel
  have queuedNone : (connectedClient .on).handed = [] :=
    List.length_eq_zero_iff.mp (by decide +kernel)
  have directNone : (connectedClient .off).handed = [] :=
    List.length_eq_zero_iff.mp (by decide +kernel)
  have same : writeCalls twoDirect = writeCalls twoQueued := rfl
  have calls : writeCalls twoQueued = [([some 7], 1), ([some 8], 1)] := rfl
  obtain ⟨frames, built, queuedSent, directSent⟩ := modes_send_same .littleEndian
    (connectedClient_resting .on) (connectedClient_resting .off)
    (directIndex.trans queuedIndex.symm) same (by decide +kernel) (by decide +kernel)
    queuedRun directRun queuedDone directDone
  rw [queuedIndex, calls] at built
  rw [queuedNone] at queuedSent
  rw [directNone] at directSent
  exact ⟨queuedFinal, directFinal, frames, queuedRun, directRun, built, queuedSent, directSent⟩

end ClientLoop

end RpcLoop
