import RpcLoop.Client.Modes

/-! Where the messages of a client are between their callers and `async_write`.
Every message is in one place, and what is being written has left all of them. -/

namespace RpcLoop

open Foundation Asio Shared

/-- The values in the nodes of a queue, that of its dummy head node first. -/
def Shared.SafeQueue.nodes {α : Type} (queue : SafeQueue α) : List α :=
  queue.head.toList ++ queue.items

namespace ClientLoop

/-- The messages handed over and those on their way, by their addresses. -/
def line (s : ClientLoop) : List Ptr := (s.handed ++ s.onTheWay).map Outgoing.addr

/-- Where the messages of a client are: no two have one address, and what is
being written was handed over. -/
structure Placed (s : ClientLoop) : Prop where
  queued : s.csq = .on → ∀ m, .doWriteMsg m ∉ s.posted
  direct : s.csq = .off → s.writeMsgQueue.nodes = []
  distinct : ∀ a, s.line.count a ≤ 1
  old : ∀ a ∈ s.line, a < s.allocated
  early : Operation.Early s.link.attempt s.link.writes
  writes : ∀ op ∈ s.link.writes, op.what ∈ s.handed

variable {layout : IntLayout} {s next : ClientLoop} {event : Event}

theorem Placed.initial (csq : ClientSendQueue) : Placed (start csq) where
  queued _ _ member := by cases member
  direct _ := rfl
  distinct a := by cases csq <;> exact Nat.zero_le _
  old a member := by cases csq <;> cases member
  early _ member := by cases member
  writes _ member := by cases member

/-- A step moves messages along the line or drops some, or it puts a new one on it. -/
inductive Along (s next : ClientLoop) : Prop where
  | less (line : ∀ a, next.line.count a ≤ s.line.count a) (allocated : s.allocated ≤ next.allocated)
  | more (line : ∀ a, next.line.count a = s.line.count a + [s.allocated].count a)
      (allocated : s.allocated < next.allocated)

/-- How often the items refer to a message at an address. -/
def refs {α : Type} (f : α → Option Outgoing) (items : List α) (a : Ptr) : Nat :=
  ((items.filterMap f).map Outgoing.addr).count a

@[simp] theorem refs_nil {α : Type} (f : α → Option Outgoing) (a : Ptr) : refs f [] a = 0 := rfl

@[simp] theorem refs_append {α : Type} (f : α → Option Outgoing) (first second : List α) (a : Ptr) :
    refs f (first ++ second) a = refs f first a + refs f second a := by
  simp [refs, List.count_append]

@[simp] theorem refs_cons {α : Type} (f : α → Option Outgoing) (item : α) (rest : List α)
    (a : Ptr) : refs f (item :: rest) a =
      refs f rest a + if (f item).any (·.addr == a) then 1 else 0 := by
  cases about : f item <;> simp [refs, about, List.count_cons]

theorem refs_set {α : Type} (f : α → Option Outgoing) {items : List α} {index : Nat} {item : α}
    (found : items[index]? = some item) (new : α) (a : Ptr) :
    refs f (items.set index new) a + refs f [item] a = refs f items a + refs f [new] a := by
  obtain ⟨before, after, rfl, replaced⟩ := split_of_set found
  rw [replaced]
  simp only [refs_append, refs_cons, refs_nil]
  omega

theorem refs_eraseIdx {α : Type} (f : α → Option Outgoing) {items : List α} {index : Nat}
    {item : α} (found : items[index]? = some item) (a : Ptr) :
    refs f items a = refs f (items.eraseIdx index) a + refs f [item] a := by
  obtain ⟨before, after, rfl, _, erased⟩ := split_of_getElem? found
  rw [erased]
  simp only [refs_append, refs_cons, refs_nil]
  omega

theorem refs_pos {α : Type} {f : α → Option Outgoing} {items : List α} {item : α} {m : Outgoing}
    (member : item ∈ items) (about : f item = some m) : 0 < refs f items m.addr :=
  List.count_pos_iff.mpr (List.mem_map_of_mem (List.mem_filterMap.mpr ⟨item, member, about⟩))

theorem line_on (mode : s.csq = .on) (a : Ptr) :
    s.line.count a = refs some s.handed a + refs some s.writeMsgQueue.items a +
      refs WriteCall.unpushed s.writers a := by
  simp only [line, onTheWay, mode, List.map_append, List.count_append, refs, List.filterMap_some]
  omega

theorem line_off (mode : s.csq = .off) (a : Ptr) :
    s.line.count a = refs some s.handed a + refs Posted.bound s.posted a +
      refs (some ∘ WriteCall.msg) s.writers a := by
  simp only [line, onTheWay, mode, List.map_append, List.count_append, refs, List.filterMap_some,
    List.filterMap_eq_map]
  omega

theorem Along.queued (only : QueueOnly s) (transition : Transition layout s event next) :
    Along s next := by
  have mode := only.mode
  have still := (only.step transition).mode
  have before := line_on mode
  have after := line_on still
  cases transition with
  | begun msg msgL res built =>
    refine .more (fun a => ?_) (Nat.lt_succ_self _)
    rw [before a, after a]
    simp [WriteCall.unpushed, List.count_cons]
    omega
  | pushed caller m stage mode =>
    refine .less (fun a => ?_) (Nat.le_refl _)
    have moved := refs_set WriteCall.unpushed stage (.queued m) a
    rw [before a, after a]
    simp [WriteCall.unpushed] at moved ⊢
    omega
  | unqueued caller m stage other => exact absurd mode other
  | inserted caller m stage =>
    refine .less (fun a => ?_) (Nat.le_succ _)
    have moved := refs_set WriteCall.unpushed stage (.inserted m s.allocated) a
    rw [before a, after a]
    simp [WriteCall.unpushed] at moved ⊢
    omega
  | armed caller m p stage =>
    refine .less (fun a => ?_) (Nat.le_refl _)
    have moved := refs_set WriteCall.unpushed stage (.armed m) a
    rw [before a, after a]
    simp [WriteCall.unpushed] at moved ⊢
    exact Nat.le_of_eq (by rw [moved]; rfl)
  | returned caller m stage =>
    refine .less (fun a => ?_) (Nat.le_refl _)
    have moved := refs_eraseIdx WriteCall.unpushed stage a
    rw [before a, after a]
    simp [WriteCall.unpushed] at moved ⊢
    omega
  | writeNext index op m queue link start done opened mode status popped writing =>
    refine .less (fun a => ?_) (Nat.le_refl _)
    rw [before a, after a, (SafeQueue.pop_eq_some popped).1]
    simp
    omega
  | postedNext index m queue link queued status popped writing =>
    refine .less (fun a => ?_) (Nat.le_refl _)
    rw [before a, after a, (SafeQueue.pop_eq_some popped).1]
    simp
    omega
  | postedMsg index m link queued status writing =>
    exact absurd (List.mem_of_getElem? queued) (only.posted m)
  | connectOk index op link erased start done reading erases =>
    refine .less (fun a => ?_) (Nat.le_of_eq (by rw [erases.rest]))
    rw [before a, after a, erases.rest]
  | erased error timer later moved erases =>
    refine .less (fun a => ?_) (Nat.le_of_eq (by rw [erases.rest]))
    rw [before a, after a, erases.rest]
  | headUnknown index op head readMsg link start done opened kind unknown buffer reading =>
    exact .less (fun a => Nat.le_of_eq ((after a).trans (before a).symm)) (Nat.le_succ _)
  | _ => exact .less (fun a => Nat.le_of_eq ((after a).trans (before a).symm)) (Nat.le_refl _)

/-- Without a queue no step pushes or pops. -/
theorem queue_off (mode : s.csq = .off) (empty : s.writeMsgQueue.nodes = [])
    (transition : Transition layout s event next) :
    next.csq = .off ∧ next.writeMsgQueue.nodes = [] := by
  have items := (List.append_eq_nil_iff.mp empty).2
  cases transition with
  | pushed caller m stage queued => exact absurd (mode.symm.trans queued) (by decide)
  | writeNext index op m queue link start done opened queued status popped writing =>
    exact absurd (mode.symm.trans queued) (by decide)
  | postedNext index m queue link queued status popped writing =>
    have first := (SafeQueue.pop_eq_some popped).1
    rw [items] at first
    cases first
  | connectOk index op link erased start done reading erases =>
    rw [erases.rest]
    exact ⟨mode, empty⟩
  | erased error timer later moved erases =>
    rw [erases.rest]
    exact ⟨mode, empty⟩
  | _ => exact ⟨mode, empty⟩

theorem Along.direct (mode : s.csq = .off) (empty : s.writeMsgQueue.nodes = [])
    (transition : Transition layout s event next) : Along s next := by
  have still := (queue_off mode empty transition).1
  have items := (List.append_eq_nil_iff.mp empty).2
  have before := line_off mode
  have after := line_off still
  cases transition with
  | begun msg msgL res built =>
    refine .more (fun a => ?_) (Nat.lt_succ_self _)
    rw [before a, after a]
    simp [WriteCall.msg, List.count_cons]
    omega
  | pushed caller m stage queued => exact absurd (mode.symm.trans queued) (by decide)
  | unqueued caller m stage other =>
    refine .less (fun a => ?_) (Nat.le_refl _)
    have moved := refs_set (some ∘ WriteCall.msg) stage (.queued m) a
    rw [before a, after a]
    simp [WriteCall.msg] at moved ⊢
    omega
  | inserted caller m stage =>
    refine .less (fun a => ?_) (Nat.le_succ _)
    have moved := refs_set (some ∘ WriteCall.msg) stage (.inserted m s.allocated) a
    rw [before a, after a]
    simp [WriteCall.msg] at moved ⊢
    omega
  | armed caller m p stage =>
    refine .less (fun a => ?_) (Nat.le_refl _)
    have moved := refs_set (some ∘ WriteCall.msg) stage (.armed m) a
    rw [before a, after a]
    simp [WriteCall.msg] at moved ⊢
    exact Nat.le_of_eq (by rw [moved]; rfl)
  | returned caller m stage =>
    refine .less (fun a => ?_) (Nat.le_refl _)
    have moved := refs_eraseIdx (some ∘ WriteCall.msg) stage a
    rw [before a, after a]
    simp [WriteCall.msg, Posted.bound, mode] at moved ⊢
    omega
  | closeAsked =>
    refine .less (fun a => ?_) (Nat.le_refl _)
    rw [before a, after a]
    simp [Posted.bound]
  | writeNext index op m queue link start done opened queued status popped writing =>
    exact absurd (mode.symm.trans queued) (by decide)
  | postedQuiet index handler queued nothing kind =>
    refine .less (fun a => ?_) (Nat.le_refl _)
    have moved := refs_eraseIdx Posted.bound queued a
    rw [before a, after a]
    simp only at moved ⊢
    omega
  | postedNext index m queue link queued status popped writing =>
    have first := (SafeQueue.pop_eq_some popped).1
    rw [items] at first
    cases first
  | postedMsg index m link queued status writing =>
    refine .less (fun a => ?_) (Nat.le_refl _)
    have moved := refs_eraseIdx Posted.bound queued a
    rw [before a, after a]
    simp [Posted.bound] at moved ⊢
    omega
  | postedClose index link queued closing =>
    refine .less (fun a => ?_) (Nat.le_refl _)
    have moved := refs_eraseIdx Posted.bound queued a
    rw [before a, after a]
    simp [Posted.bound] at moved ⊢
    omega
  | connectOk index op link erased start done reading erases =>
    refine .less (fun a => ?_) (Nat.le_of_eq (by rw [erases.rest]))
    rw [before a, after a, erases.rest]
  | erased error timer later moved erases =>
    refine .less (fun a => ?_) (Nat.le_of_eq (by rw [erases.rest]))
    rw [before a, after a, erases.rest]
  | headUnknown index op head readMsg link start done opened kind unknown buffer reading =>
    exact .less (fun a => Nat.le_of_eq ((after a).trans (before a).symm)) (Nat.le_succ _)
  | _ => exact .less (fun a => Nat.le_of_eq ((after a).trans (before a).symm)) (Nat.le_refl _)

/-- What is being written after a step was being written before, beside the
write whose handler ran, or is the message just sent. -/
theorem writes_cases (transition : Transition layout s event next) :
    ∀ op ∈ next.link.writes,
      (∃ old ∈ otherWrites s event, old.what = op.what ∧ old.conn = op.conn) ∨
        sends s event = some op.what := by
  intro op member
  cases transition with
  | writeNext index old m queue link start done opened mode status popped writing =>
    obtain ⟨new, what, _, _, rfl⟩ := Link.asyncWrite_eq_some writing
    rcases List.mem_append.mp member with known | last
    · exact .inl ⟨op, known, rfl, rfl⟩
    · right
      rw [List.mem_singleton.mp last, what, sends_written index opened mode,
        nextQueued_eq_some status popped]
  | postedNext index m queue link queued status popped writing =>
    obtain ⟨new, what, _, _, rfl⟩ := Link.asyncWrite_eq_some writing
    rcases List.mem_append.mp member with known | last
    · exact .inl ⟨op, known, rfl, rfl⟩
    · right
      rw [List.mem_singleton.mp last, what, sends_posted queued,
        nextQueued_eq_some status popped]
  | postedMsg index m link queued status writing =>
    obtain ⟨new, what, _, _, rfl⟩ := Link.asyncWrite_eq_some writing
    rcases List.mem_append.mp member with known | last
    · exact .inl ⟨op, known, rfl, rfl⟩
    · right
      rw [List.mem_singleton.mp last, what, sends_postedMsg queued status]
  | sent index old start live up =>
    rcases List.mem_or_eq_of_mem_set member with known | rfl
    · exact .inl ⟨op, known, rfl, rfl⟩
    · exact .inl ⟨old, List.mem_of_getElem? start, rfl, rfl⟩
  | writeClosed index error old start delivers closed =>
    rw [Link.doConnect_writes] at member
    exact .inl ⟨op, member, rfl, rfl⟩
  | writeFailed index old link start failed opened closing =>
    exact .inl (Link.doClose_writes closing op member)
  | writeOk index old start done opened nothing => exact .inl ⟨op, member, rfl, rfl⟩
  | readClosed index error old start delivers closed =>
    rw [Link.doConnect_writes] at member
    exact .inl ⟨op, member, rfl, rfl⟩
  | headFailed index old t link start failed opened kind closing =>
    exact .inl (Link.doClose_writes closing op member)
  | msgFailed index old p length link start failed opened kind closing =>
    exact .inl (Link.doClose_writes closing op member)
  | postedClose index link queued closing => exact .inl (Link.doClose_writes closing op member)
  | connectFailed index old start failed =>
    obtain ⟨before, known, rfl⟩ := List.mem_map.mp member
    exact .inl ⟨before, known, before.what_abort.symm, before.conn_abort.symm⟩
  | connectOk index old link erased start done reading erases =>
    obtain ⟨new, _, _, _, rfl⟩ := Link.asyncRead_eq_some reading
    rw [erases.rest] at member
    exact .inl ⟨op, member, rfl, rfl⟩
  | headKnown index old head p known readMsg link start done opened kind present headed buffer
      reading =>
    obtain ⟨new, _, _, _, rfl⟩ := Link.asyncRead_eq_some reading
    exact .inl ⟨op, member, rfl, rfl⟩
  | headUnknown index old head readMsg link start done opened kind unknown buffer reading =>
    obtain ⟨new, _, _, _, rfl⟩ := Link.asyncRead_eq_some reading
    exact .inl ⟨op, member, rfl, rfl⟩
  | msgOk index old p length readMsg link start done opened kind body reading =>
    obtain ⟨new, _, _, _, rfl⟩ := Link.asyncRead_eq_some reading
    exact .inl ⟨op, member, rfl, rfl⟩
  | reopened closed =>
    rw [Link.doConnect_writes] at member
    exact .inl ⟨op, member, rfl, rfl⟩
  | erased error timer later moved erases =>
    rw [erases.rest] at member
    exact .inl ⟨op, member, rfl, rfl⟩
  | _ => exact .inl ⟨op, member, rfl, rfl⟩

theorem otherWrites_subset (event : Event) : ∀ op ∈ otherWrites s event, op ∈ s.link.writes := by
  intro op member
  cases event with
  | handleWrite index error => exact List.mem_of_mem_eraseIdx member
  | _ => exact member

theorem Along.allocated_le (along : Along s next) : s.allocated ≤ next.allocated := by
  cases along with
  | less _ allocated => exact allocated
  | more _ allocated => exact Nat.le_of_lt allocated

theorem Placed.along (placed : Placed s) (transition : Transition layout s event next) :
    Along s next := by
  cases mode : s.csq with
  | on => exact .queued ⟨mode, placed.queued mode⟩ transition
  | off => exact .direct mode (placed.direct mode) transition

theorem Placed.step (placed : Placed s) (transition : Transition layout s event next) :
    Placed next := by
  have modes : (next.csq = .on → ∀ m, .doWriteMsg m ∉ next.posted) ∧
      (next.csq = .off → next.writeMsgQueue.nodes = []) := by
    cases mode : s.csq with
    | on =>
      have after := QueueOnly.step ⟨mode, placed.queued mode⟩ transition
      exact ⟨fun _ => after.posted, fun off => absurd (after.mode.symm.trans off) (by decide)⟩
    | off =>
      have after := queue_off mode (placed.direct mode) transition
      exact ⟨fun on => absurd (after.1.symm.trans on) (by decide), fun _ => after.2⟩
  have along := placed.along transition
  have fresh : s.line.count s.allocated = 0 :=
    List.count_eq_zero_of_not_mem fun member => Nat.lt_irrefl _ (placed.old _ member)
  refine ⟨modes.1, modes.2, ?_, ?_, early_step transition placed.early, ?_⟩
  · intro a
    have before := placed.distinct a
    cases along with
    | less line allocated => exact Nat.le_trans (line a) before
    | more line allocated =>
      rw [line a]
      by_cases new : a = s.allocated
      · subst new
        simp [fresh]
      · simpa [Ne.symm new] using before
  · intro a member
    have counted := List.count_pos_iff.mpr member
    cases along with
    | less line allocated =>
      have known := List.count_pos_iff.mp (Nat.lt_of_lt_of_le counted (line a))
      exact Nat.lt_of_lt_of_le (placed.old a known) allocated
    | more line allocated =>
      rw [line a] at counted
      by_cases new : a = s.allocated
      · rwa [new]
      · have known : 0 < s.line.count a := by simpa [Ne.symm new] using counted
        exact Nat.lt_trans (placed.old a (List.count_pos_iff.mp known)) allocated
  · intro op member
    have handed : ∀ m, m ∈ s.handed → m ∈ next.handed := by
      intro m known
      rcases sends_cases transition placed.early with ⟨_, same, _⟩ | ⟨_, _, _, same, _⟩
      · rwa [same]
      · rw [same]
        exact List.mem_append_left _ known
    rcases writes_cases transition op member with ⟨old, known, same, _⟩ | sending
    · rw [← same]
      exact handed _ (placed.writes old (otherWrites_subset event old known))
    · rcases sends_cases transition placed.early with ⟨quiet, _, _⟩ | ⟨m, _, sent, same, _⟩
      · cases quiet.symm.trans sending
      · cases sent.symm.trans sending
        rw [same]
        exact List.mem_append_right _ List.mem_cons_self

/-- A message that was handed over is not bound into a posted handler any more. -/
theorem Placed.unposted (placed : Placed s) {m : Outgoing} (handed : m ∈ s.handed) :
    refs Posted.bound s.posted m.addr = 0 := by
  cases mode : s.csq with
  | on =>
    have none : s.posted.filterMap Posted.bound = [] := by
      apply List.filterMap_eq_nil_iff.mpr
      intro handler member
      cases handler with
      | doWriteMsg m => exact absurd member (placed.queued mode m)
      | _ => rfl
    simp [refs, none]
  | off =>
    have there := refs_pos (f := some) handed rfl
    have once := placed.distinct m.addr
    rw [line_off mode] at once
    omega

/-- Nor does it wait in the queue. -/
theorem Placed.unqueued (placed : Placed s) {m : Outgoing} (handed : m ∈ s.handed) :
    refs some s.writeMsgQueue.items m.addr = 0 := by
  cases mode : s.csq with
  | on =>
    have there := refs_pos (f := some) handed rfl
    have once := placed.distinct m.addr
    rw [line_on mode] at once
    omega
  | off =>
    have empty := (List.append_eq_nil_iff.mp (placed.direct mode)).2
    simp [empty]

/-- Only a step that sends changes the dummy head of the queue: it is the
message popped, or the message comes from a posted handler. -/
theorem head_step (transition : Transition layout s event next) :
    (sends s event = none ∧ next.writeMsgQueue.head = s.writeMsgQueue.head) ∨
    ∃ m, sends s event = some m ∧
      (next.writeMsgQueue.head = some m ∧ m ∈ s.writeMsgQueue.items ∨
        .doWriteMsg m ∈ s.posted) := by
  cases transition with
  | writeNext index op m queue link start done opened mode status popped writing =>
    have parts := SafeQueue.pop_eq_some popped
    refine .inr ⟨m, ?_, .inl ⟨parts.2, by rw [parts.1]; exact List.mem_cons_self⟩⟩
    rw [sends_written index opened mode, nextQueued_eq_some status popped]
  | postedNext index m queue link queued status popped writing =>
    have parts := SafeQueue.pop_eq_some popped
    refine .inr ⟨m, ?_, .inl ⟨parts.2, by rw [parts.1]; exact List.mem_cons_self⟩⟩
    rw [sends_posted queued, nextQueued_eq_some status popped]
  | postedMsg index m link queued status writing =>
    exact .inr ⟨m, sends_postedMsg queued status, .inr (List.mem_of_getElem? queued)⟩
  | writeOk index op start done opened nothing =>
    exact .inl ⟨sends_writeOk index nothing, rfl⟩
  | writeClosed index error op start delivers closed =>
    exact .inl ⟨sends_writeClosed index error closed, rfl⟩
  | postedQuiet index handler queued nothing kind =>
    exact .inl ⟨sends_postedQuiet queued nothing, rfl⟩
  | postedClose index link queued closing => exact .inl ⟨sends_postedClose queued, rfl⟩
  | connectOk index op link erased start done reading erases =>
    rw [erases.rest]
    exact .inl ⟨rfl, rfl⟩
  | erased error timer after moved erases =>
    rw [erases.rest]
    exact .inl ⟨rfl, rfl⟩
  | _ => exact .inl ⟨rfl, rfl⟩

end ClientLoop

end RpcLoop
