import RpcLoop.Client.Sending

/-! Whether a queued message is ever sent. `do_write` returns silently while the
client is not connected, and `handle_connect` starts only the reading side, so a
message queued during an outage waits for somebody else's write. -/

namespace RpcLoop.ClientLoop

open Foundation Asio Shared

/-- Something will run `do_write`: a posted handler, or a write on the open
socket whose completion continues with the queue. -/
def Trigger (s : ClientLoop) : Prop :=
  .doWrite ∈ s.posted ∨ s.link.opened = true ∧ ∃ op ∈ s.link.writes, op.state ≠ .aborted

/-- No message waits in the queue of a connected client without a trigger. -/
def NoneStranded (s : ClientLoop) : Prop :=
  s.link.clietnStatus = .connOk → s.writers = [] → s.writeMsgQueue.items ≠ [] → Trigger s

/-- A connect completes only where nothing is queued or a trigger exists, and no
`do_write` wastes the last trigger of several messages on a closed socket. -/
def KeepsTrigger (s : ClientLoop) (event : Event) (_ : ClientLoop) : Prop :=
  match event with
  | .handleConnect _ false => s.writers = [] → s.writeMsgQueue.items ≠ [] → Trigger s
  | .runPosted index =>
    s.posted[index]? = some .doWrite → s.link.clietnStatus = .connOk → s.link.opened = false →
      s.writers = [] → s.writeMsgQueue.size ≤ 1 ∨ .doWrite ∈ s.posted.eraseIdx index
  | _ => True

variable {layout : IntLayout} {s next : ClientLoop} {event : Event}

theorem NoneStranded.of_status (down : next.link.clietnStatus ≠ .connOk) : NoneStranded next :=
  fun up => absurd up down

theorem NoneStranded.of_doClose {l link : Link} (closing : l.doClose = some link)
    (same : next.link = link) : NoneStranded next := by
  refine .of_status ?_
  rw [same, Link.doClose_status closing]
  simp

theorem NoneStranded.of_doConnect {l : Link} (same : next.link = l.doConnect) :
    NoneStranded next := by
  refine .of_status ?_
  rw [same, Link.doConnect_status]
  simp

theorem NoneStranded.keep (awake : NoneStranded s)
    (status : next.link.clietnStatus = s.link.clietnStatus) (writers : next.writers = s.writers)
    (queue : next.writeMsgQueue.items = s.writeMsgQueue.items)
    (trigger : Trigger s → Trigger next) : NoneStranded next := by
  intro up quiet waiting
  rw [status] at up
  rw [writers] at quiet
  rw [queue] at waiting
  exact trigger (awake up quiet waiting)

private theorem trigger_of_started {link : Link} {op : Operation Outgoing}
    {rest : List (Operation Outgoing)}
    (opened : s.link.opened = true) (on : op.on s.link.attempt = s.link.opened)
    (same : next.link = { link with socket := s.link.socket, writes := rest ++ [op] }) :
    Trigger next := by
  right
  rw [same]
  refine ⟨opened, op, by simp, ?_⟩
  rw [opened, Operation.on, Bool.and_eq_true] at on
  simpa using on.2

private theorem writers_set_ne_nil {caller : Nat} {w v : WriteCall}
    (stage : s.writers[caller]? = some w) :
    s.writers.set caller v ≠ [] := by
  intro empty
  rw [List.set_eq_nil_iff] at empty
  simp [empty] at stage

/-- A step strands nothing exactly when it keeps the trigger. -/
theorem NoneStranded.step_iff (awake : NoneStranded s) (mode : s.csq = .on)
    (transition : Transition layout s event next) :
    NoneStranded next ↔ KeepsTrigger s event next := by
  cases transition with
  | connectOk index op link erased start done reading erases =>
    obtain ⟨new, _, _, _, rfl⟩ := Link.asyncRead_eq_some reading
    rw [erases.rest]
    exact ⟨fun stranded => stranded rfl, fun kept _ => kept⟩
  | postedNext index m queue link queued status popped writing =>
    obtain ⟨new, what, conn, on, rfl⟩ := Link.asyncWrite_eq_some writing
    have size := SafeQueue.size_pop popped
    constructor
    · intro stranded _ _ closed quiet
      by_cases more : queue.items = []
      · left
        rw [size, SafeQueue.size, more]
        exact Nat.le_refl _
      · right
        rcases stranded status quiet more with posted | ⟨opened, _⟩
        · exact posted
        · have shut : s.link.opened = true := opened
          rw [closed] at shut
          cases shut
    · intro kept up quiet waiting
      cases opened : s.link.opened with
      | true => exact trigger_of_started opened on rfl
      | false =>
        rcases kept queued status opened quiet with short | posted
        · rw [size, SafeQueue.size] at short
          have empty : queue.items = [] := List.length_eq_zero_iff.mp (by omega)
          exact absurd empty waiting
        · exact .inl posted
  | postedQuiet index handler queued nothing kind =>
    constructor
    · intro _ doWrite up _ _
      left
      rw [SafeQueue.size, (nothing up).2]
      exact Nat.zero_le _
    · exact fun _ up _ waiting => absurd (nothing up).2 waiting
  | postedMsg index m link queued status writing =>
    obtain ⟨new, what, conn, on, rfl⟩ := Link.asyncWrite_eq_some writing
    refine ⟨fun _ found => absurd (queued.symm.trans found) (by simp), fun _ => ?_⟩
    refine awake.keep rfl rfl rfl fun trigger => ?_
    rcases trigger with posted | ⟨opened, other, member, going⟩
    · exact .inl (mem_eraseIdx_of_ne queued posted (by simp))
    · exact .inr ⟨opened, other, List.mem_append_left _ member, going⟩
  | postedClose index link queued closing =>
    refine ⟨fun _ found => absurd (queued.symm.trans found) (by simp), fun _ => ?_⟩
    exact .of_doClose closing rfl
  | writeNext index op m queue link start done opened queued status popped writing =>
    obtain ⟨new, what, conn, on, rfl⟩ := Link.asyncWrite_eq_some writing
    exact ⟨fun _ => trivial, fun _ _ _ _ => trigger_of_started opened on rfl⟩
  | writeOk index op start done opened nothing =>
    exact ⟨fun _ => trivial, fun _ up _ waiting => absurd (nothing mode up) waiting⟩
  | begun msg msgL res built =>
    exact ⟨fun _ => trivial, fun _ _ quiet => by simp at quiet⟩
  | pushed caller m stage queued =>
    exact ⟨fun _ => trivial, fun _ _ quiet => absurd quiet (writers_set_ne_nil stage)⟩
  | unqueued caller m stage other => exact absurd mode other
  | inserted caller m stage =>
    exact ⟨fun _ => trivial, fun _ _ quiet => absurd quiet (writers_set_ne_nil stage)⟩
  | armed caller m p stage =>
    exact ⟨fun _ => trivial, fun _ _ quiet => absurd quiet (writers_set_ne_nil stage)⟩
  | returned caller m stage =>
    exact ⟨fun _ => trivial, fun _ _ _ _ => .inl (by simp [mode])⟩
  | closeAsked =>
    refine ⟨fun _ => trivial, fun _ => awake.keep rfl rfl rfl fun trigger => ?_⟩
    exact trigger.imp (fun posted => List.mem_append_left _ posted) id
  | reopened closed =>
    exact ⟨fun _ => trivial, fun _ => .of_doConnect rfl⟩
  | connected index op start live unlost =>
    refine ⟨fun _ => trivial, fun _ => awake.keep rfl rfl rfl fun trigger => ?_⟩
    refine trigger.imp id fun usable => ⟨?_, usable.2⟩
    rw [← usable.1]
    simp only [Link.opened, Link.establish]
    cases s.link.socket <;> rfl
  | disturbed lost shuts socket after found upset =>
    refine ⟨fun _ => trivial, fun _ => awake.keep rfl rfl rfl fun trigger => ?_⟩
    exact trigger.imp id fun usable => ⟨upset.isOpen, usable.2⟩
  | sent index op start live up =>
    refine ⟨fun _ => trivial, fun _ => awake.keep rfl rfl rfl fun trigger => ?_⟩
    refine trigger.imp id fun usable => ⟨usable.1, ?_⟩
    have inside := (List.getElem?_eq_some_iff.mp start).1
    exact ⟨_, List.mem_set inside _, by simp⟩
  | connectFailed index op start failed =>
    exact ⟨fun _ => trivial, fun _ => .of_status (by simp [Link.resetSocket, Link.abortAll])⟩
  | readClosed index error op start delivers closed =>
    exact ⟨fun _ => trivial, fun _ => .of_doConnect rfl⟩
  | writeClosed index error op start delivers closed =>
    exact ⟨fun _ => trivial, fun _ => .of_doConnect rfl⟩
  | headFailed index op t link start failed opened kind closing =>
    exact ⟨fun _ => trivial, fun _ => .of_doClose closing rfl⟩
  | msgFailed index op p length link start failed opened kind closing =>
    exact ⟨fun _ => trivial, fun _ => .of_doClose closing rfl⟩
  | writeFailed index op link start failed opened closing =>
    exact ⟨fun _ => trivial, fun _ => .of_doClose closing rfl⟩
  | headKnown index op head p known readMsg link start done opened kind present headed buffer
      reading =>
    obtain ⟨new, _, _, _, rfl⟩ := Link.asyncRead_eq_some reading
    exact ⟨fun _ => trivial, fun _ => awake.keep rfl rfl rfl id⟩
  | headUnknown index op head readMsg link start done opened kind unknown buffer reading =>
    obtain ⟨new, _, _, _, rfl⟩ := Link.asyncRead_eq_some reading
    exact ⟨fun _ => trivial, fun _ => awake.keep rfl rfl rfl id⟩
  | msgOk index op p length readMsg link start done opened kind body reading =>
    obtain ⟨new, _, _, _, rfl⟩ := Link.asyncRead_eq_some reading
    exact ⟨fun _ => trivial, fun _ => awake.keep rfl rfl rfl id⟩
  | erased error timer after moved erases =>
    rw [erases.rest]
    exact ⟨fun _ => trivial, fun _ => awake.keep rfl rfl rfl id⟩
  | _ => exact ⟨fun _ => trivial, fun _ => awake.keep rfl rfl rfl id⟩

/-- The mode is fixed by the constructor. -/
theorem csq_step (transition : Transition layout s event next) : next.csq = s.csq := by
  cases transition with
  | connectOk index op link erased start done reading erases => rw [erases.rest]
  | erased error timer after moved erases => rw [erases.rest]
  | _ => rfl

/-- No message of a client with a queue is stranded throughout a run exactly
when every step of the run keeps the trigger. -/
theorem noneStranded_iff_keepsTrigger (layout : IntLayout) (schedule : List Event) :
    (machine layout).Always NoneStranded (start .on) schedule ↔
      (machine layout).AllSteps KeepsTrigger (start .on) schedule := by
  apply Machine.always_iff fun s => NoneStranded s ∧ s.csq = .on
  · exact fun held => held.1
  · exact fun held taken => held.1.step_iff held.2 (transition_of_step taken)
  · intro before label after held taken guarded
    have transition := transition_of_step taken
    exact ⟨(held.1.step_iff held.2 transition).mpr guarded, (csq_step transition).trans held.2⟩
  · exact ⟨.of_status (by decide), rfl⟩

/-- A whole `write` and its posted handler come before the first connect completes. -/
def writtenEarly : List Event :=
  [.beginWrite [some 7] 1, .push 0, .insert 0, .arm 0, .post 0, .runPosted 0, .connected 0,
    .handleConnect 0 false]

/-- The client is connected, the message is still queued, and nothing will send it. -/
theorem writtenEarly_strands :
    ¬ (machine .littleEndian).Always NoneStranded (start .on) writtenEarly := by
  intro always
  have outcome : ((machine .littleEndian).run (start .on) writtenEarly).map
      (fun s => (s.link.clietnStatus, s.writers.length, s.writeMsgQueue.size, s.posted.length,
        s.link.writes.length)) = some (.connOk, 0, 1, 0, 0) := by
    decide +kernel
  obtain ⟨final, reached, same⟩ := Option.map_eq_some_iff.mp outcome
  obtain ⟨status, writers, size, posted, writes⟩ : final.link.clietnStatus = .connOk ∧
      final.writers.length = 0 ∧ final.writeMsgQueue.size = 1 ∧ final.posted.length = 0 ∧
      final.link.writes.length = 0 := by
    simpa using same
  have waiting : final.writeMsgQueue.items ≠ [] := by
    intro empty
    simp [SafeQueue.size, empty] at size
  rcases always.final reached status (List.length_eq_zero_iff.mp writers) waiting with
    handler | ⟨_, op, member, _⟩
  · simp [List.length_eq_zero_iff.mp posted] at handler
  · simp [List.length_eq_zero_iff.mp writes] at member

end RpcLoop.ClientLoop
