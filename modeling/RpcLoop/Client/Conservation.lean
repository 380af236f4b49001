import RpcLoop.Client.Sending

/-! What becomes of the messages a client with a queue was asked to send. The
queue is drained by posted handlers and by completed writes, and both only move
its first message to `async_write`. -/

namespace RpcLoop.ClientLoop

open Foundation Asio Shared

/-- What was handed to `async_write`, followed by the queue, is what was pushed. -/
def Conserved (s : ClientLoop) : Prop := s.handed ++ s.writeMsgQueue.items = s.pushed

/-- While the client is not connected no message leaves the queue, and a failed
write neither drops nor sends one. -/
def LosesNothing (s : ClientLoop) (event : Event) (next : ClientLoop) : Prop :=
  (s.link.clietnStatus ≠ .connOk →
    next.handed = s.handed ∧ s.writeMsgQueue.items <+: next.writeMsgQueue.items) ∧
  ∀ index, event = .handleWrite index true →
    next.handed = s.handed ∧ next.writeMsgQueue.items = s.writeMsgQueue.items

/-- No message travels beside the queue. -/
structure QueueOnly (s : ClientLoop) : Prop where
  mode : s.csq = .on
  posted : ∀ m, .doWriteMsg m ∉ s.posted

/-- How a step moves messages: a caller pushes one, a handler of a connected
client hands over the first one, or nothing moves. -/
inductive Moves (s : ClientLoop) (event : Event) (next : ClientLoop) : Prop where
  | none (handed : next.handed = s.handed)
      (queue : next.writeMsgQueue.items = s.writeMsgQueue.items) (pushed : next.pushed = s.pushed)
  | push (m : Outgoing) (caller : Nat) (about : event = .push caller)
      (handed : next.handed = s.handed)
      (queue : next.writeMsgQueue.items = s.writeMsgQueue.items ++ [m])
      (pushed : next.pushed = s.pushed ++ [m])
  | hand (m : Outgoing) (sending : sends s event = some m) (status : s.link.clietnStatus = .connOk)
      (handed : next.handed = s.handed ++ [m])
      (queue : s.writeMsgQueue.items = m :: next.writeMsgQueue.items)
      (pushed : next.pushed = s.pushed)

variable {layout : IntLayout} {s next : ClientLoop} {event : Event}

theorem QueueOnly.step (only : QueueOnly s) (transition : Transition layout s event next) :
    QueueOnly next := by
  have less : ∀ index, ∀ m, .doWriteMsg m ∉ s.posted.eraseIdx index :=
    fun index m member => only.posted m (List.mem_of_mem_eraseIdx member)
  cases transition with
  | returned caller m stage =>
    refine ⟨only.mode, fun other member => ?_⟩
    rcases List.mem_append.mp member with old | new
    · exact only.posted other old
    · simp [only.mode] at new
  | closeAsked =>
    refine ⟨only.mode, fun other member => ?_⟩
    rcases List.mem_append.mp member with old | new
    · exact only.posted other old
    · simp at new
  | postedQuiet index handler queued nothing kind => exact ⟨only.mode, less index⟩
  | postedNext index m queue link queued status popped writing => exact ⟨only.mode, less index⟩
  | postedMsg index m link queued status writing => exact ⟨only.mode, less index⟩
  | postedClose index link queued closing => exact ⟨only.mode, less index⟩
  | connectOk index op link erased start done reading erases =>
    rw [erases.rest]
    exact ⟨only.mode, only.posted⟩
  | erased error timer after moved erases =>
    rw [erases.rest]
    exact ⟨only.mode, only.posted⟩
  | _ => exact ⟨only.mode, only.posted⟩

/-- Every step of a client with a queue moves messages in one of these ways. -/
theorem QueueOnly.moves (only : QueueOnly s) (transition : Transition layout s event next) :
    Moves s event next := by
  cases transition with
  | pushed caller m stage mode => exact .push m caller rfl rfl rfl rfl
  | writeNext index op m queue link start done opened mode status popped writing =>
    refine .hand m ?_ status rfl (SafeQueue.pop_eq_some popped).1 rfl
    rw [sends_written index opened mode, nextQueued_eq_some status popped]
  | postedNext index m queue link queued status popped writing =>
    refine .hand m ?_ status rfl (SafeQueue.pop_eq_some popped).1 rfl
    rw [sends_posted queued, nextQueued_eq_some status popped]
  | postedMsg index m link queued status writing =>
    exact absurd (List.mem_of_getElem? queued) (only.posted m)
  | connectOk index op link erased start done reading erases =>
    rw [erases.rest]
    exact .none rfl rfl rfl
  | erased error timer after moved erases =>
    rw [erases.rest]
    exact .none rfl rfl rfl
  | _ => exact .none rfl rfl rfl

theorem Conserved.step (conserved : Conserved s) (moves : Moves s event next) : Conserved next := by
  simp only [Conserved] at conserved ⊢
  cases moves with
  | none handed queue pushed => rw [handed, queue, pushed, conserved]
  | push m caller about handed queue pushed =>
    rw [handed, queue, pushed, ← conserved, List.append_assoc]
  | hand m sending status handed queue pushed =>
    rw [handed, pushed, ← conserved, queue, List.append_assoc, List.singleton_append]

theorem Moves.losesNothing (moves : Moves s event next) : LosesNothing s event next := by
  cases moves with
  | none handed queue pushed =>
    refine ⟨fun _ => ⟨handed, [], ?_⟩, fun _ _ => ⟨handed, queue⟩⟩
    rw [queue, List.append_nil]
  | push m caller about handed queue pushed =>
    refine ⟨fun _ => ⟨handed, ?_⟩, ?_⟩
    · rw [queue]
      exact ⟨[m], rfl⟩
    · rintro index rfl
      cases about
  | hand m sending status handed queue pushed =>
    refine ⟨fun down => absurd status down, ?_⟩
    rintro index rfl
    cases sending

/-- A client with a queue loses, repeats and reorders nothing: throughout every
run the messages handed over and the queue make up the messages pushed. -/
theorem queueMode_conserves (layout : IntLayout) (schedule : List Event) :
    (machine layout).Always Conserved (start .on) schedule ∧
      (machine layout).AllSteps LosesNothing (start .on) schedule := by
  have only : QueueOnly (start .on) := ⟨rfl, fun _ member => by cases member⟩
  have conserved : Conserved (start .on) := rfl
  constructor
  · apply Machine.always_of_invariant (fun s => QueueOnly s ∧ Conserved s) (fun held => held.2)
    · intro before event after held taken
      have transition := transition_of_step taken
      exact ⟨held.1.step transition, held.2.step (held.1.moves transition)⟩
    · exact ⟨only, conserved⟩
  · apply Machine.allSteps_of_invariant QueueOnly _ only
    intro before event after held taken
    have transition := transition_of_step taken
    exact ⟨(held.moves transition).losesNothing, held.step transition⟩

end RpcLoop.ClientLoop
