import RpcLoop.Server.Delivery

/-! The message at the front of the deque. `do_write` has run on it, so `body()`
gives the very same object again and its frame can be written once more. Behind
the front the deque may hold messages that cannot be written at all. -/

namespace RpcLoop

open Foundation

/-- An object that `body()` has nothing left to do for. -/
def RpcStruct.Written (layout : IntLayout) (m : RpcStruct) : Prop :=
  m.body layout = .ok m ∧ ∃ frame, m.frame = .ok frame

private theorem memcpy_again {block written : Block} {offset length : Int32} {source : List Cell}
    (copied : memcpy block offset source length = .ok written) :
    memcpy written offset source length = .ok written := by
  unfold memcpy at copied ⊢
  split at copied
  · rename_i inside
    cases copied
    rw [if_pos (by simpa using inside), Block.write_write]
  · cases copied

private theorem allocate_again {m : RpcStruct} {pre : Int32} {block written : Block}
    (allocated : m.allocate = (pre, some block)) :
    { m with preBodySize := pre, data := some written }.allocate = (pre, some written) := by
  have enough : ¬ pre < m.headInfo.bodyLen := by
    unfold RpcStruct.allocate at allocated
    split at allocated
    · have same : m.headInfo.bodyLen = pre := by
        split at allocated <;> exact congrArg Prod.fst allocated
      rw [same]
      exact Int32.lt_irrefl
    · rename_i large
      have same : m.preBodySize = pre := by
        split at allocated <;> exact congrArg Prod.fst allocated
      rwa [← same]
  simp only [RpcStruct.allocate, enough, if_false]

theorem RpcStruct.newData_again {layout : IntLayout} {m again : RpcStruct}
    (made : m.newData layout = .ok again) : again.newData layout = .ok again := by
  simp only [RpcStruct.newData] at made
  split at made
  · cases made
  · rename_i pre block allocated
    split at made
    · cases made
    · rename_i written copied
      cases made
      simp only [RpcStruct.newData, allocate_again allocated, memcpy_again copied]

namespace LinkSession

variable {layout : IntLayout} {callFun : Option CallbackFun} {s next : LinkSession} {event : Event}

/-- The front of a deque that is not empty can be written again. -/
def Front (layout : IntLayout) (s : LinkSession) : Prop :=
  ∀ p, s.writeMsgs.head? = some p → (s.heap p).Written layout

theorem front_of_doWrite (step : s.doWrite layout = some next) : Front layout next := by
  simp only [doWrite, Option.bind_eq_bind, Option.bind_eq_some_iff, Option.pure_def] at step
  obtain ⟨front, first, msg, body, frame, framed, same⟩ := step
  cases same
  intro p head
  cases first.symm.trans head
  have made : (s.heap front).newData layout = .ok msg := by
    cases outcome : (s.heap front).body layout with
    | error fault => simp [outcome, Except.toOption] at body
    | ok found =>
      simp only [outcome, Except.toOption, Option.some.injEq] at body
      rwa [← body]
  have whole : ∃ cells, msg.frame = .ok cells := by
    cases outcome : msg.frame with
    | error fault => simp [outcome, Except.toOption] at framed
    | ok cells => exact ⟨cells, rfl⟩
  simp only [store, Function.update_self]
  exact ⟨RpcStruct.newData_again made, whole⟩

private theorem front_of_queueReply {p : Ptr} (step : s.queueReply layout p = some next) :
    Front layout next := by
  rw [queueReply_eq] at step
  exact front_of_doWrite step

private theorem front_of_reply {p : Ptr} (step : s.reply layout callFun p = some next) :
    Front layout next := by
  unfold reply at step
  cases callFun with
  | none => exact front_of_queueReply step
  | some callback =>
    simp only [Option.bind_eq_bind, Option.bind_eq_some_iff] at step
    obtain ⟨msg, _, step⟩ := step
    split at step
    · exact front_of_queueReply step
    · split at step
      · simp only [Option.bind_eq_some_iff] at step
        obtain ⟨built, _, step⟩ := step
        exact front_of_queueReply step
      · exact front_of_queueReply step

private theorem front_of_handleReadMsg {p : Ptr}
    (step : s.handleReadMsg layout callFun p = some next) : Front layout next := by
  simp only [handleReadMsg, Option.bind_eq_bind, Option.pure_def] at step
  split at step
  · cases step
  · simp only [Option.bind_eq_some_iff] at step
    obtain ⟨msg, _, replied, reply, same⟩ := step
    cases same
    have front : Front layout replied := front_of_reply reply
    exact front

/-- What every session keeps: its addresses are known, the message being read is
not in the deque, and the front has been written. -/
structure FrontWritten (layout : IntLayout) (s : LinkSession) : Prop where
  old : ∀ p ∈ s.writeMsgs, p < s.allocated
  buffer : ∀ p length, s.reading = .msg p length → p < s.allocated ∧ p ∉ s.writeMsgs
  front : Front layout s

theorem FrontWritten.initial : FrontWritten layout start where
  old _ member := by cases member
  buffer _ _ same := by cases same
  front _ head := by cases head

private theorem FrontWritten.addresses (written : FrontWritten layout s)
    (transition : Transition s event next) :
    (∀ p ∈ next.writeMsgs, p < next.allocated) ∧
      ∀ p length, next.reading = .msg p length → p < next.allocated ∧ p ∉ next.writeMsgs := by
  cases transition with
  | arrived => exact ⟨written.old, written.buffer⟩
  | readFailed => exact ⟨written.old, fun _ _ same => by cases same⟩
  | writeFailed => exact ⟨written.old, written.buffer⟩
  | header reading heap length input =>
    refine ⟨fun p member => Nat.lt_succ_of_lt (written.old p member), ?_⟩
    intro p size same
    cases same
    exact ⟨Nat.lt_succ_self _, fun member => Nat.lt_irrefl _ (written.old _ member)⟩
  | request p length reading queued front which =>
    refine ⟨?_, fun _ _ same => by cases same⟩
    intro q member
    rcases List.mem_append.mp member with earlier | last
    · exact Nat.lt_succ_of_lt (written.old q earlier)
    · rw [List.mem_singleton.mp last]
      rcases which with rfl | rfl
      · exact Nat.lt_succ_of_lt (written.buffer _ _ reading).1
      · exact Nat.lt_succ_self _
  | written index inside front rest queue =>
    have sub : ∀ p ∈ rest, p ∈ s.writeMsgs := fun p member => by simp [queue, member]
    refine ⟨fun p member => written.old p (sub p member), ?_⟩
    intro p length reading
    have known := written.buffer p length reading
    exact ⟨known.1, fun member => known.2 (sub p member)⟩

private theorem FrontWritten.next_front (written : FrontWritten layout s)
    (taken : (machine layout callFun).step s event = some next) : Front layout next := by
  change LinkSession.step layout callFun s event = some next at taken
  cases event with
  | arrive bytes =>
    cases taken
    exact written.front
  | readOk =>
    simp only [LinkSession.step, completeRead] at taken
    split at taken
    · cases taken
    · split at taken
      · simp only [handleReadHeader, Option.bind_eq_bind, Option.bind_eq_some_iff,
          Option.pure_def] at taken
        obtain ⟨readBuf, _, same⟩ := taken
        cases same
        intro p head
        have known : p ≠ s.allocated :=
          Nat.ne_of_lt (written.old p (List.mem_of_mem_head? head))
        simpa [alloc, known] using written.front p head
      · cases taken
    · split at taken
      · simp only [Option.bind_eq_bind, Option.bind_eq_some_iff] at taken
        obtain ⟨msg, _, taken⟩ := taken
        exact front_of_handleReadMsg taken
      · cases taken
  | readError =>
    simp only [LinkSession.step] at taken
    split at taken
    · cases taken
    · cases taken
      exact written.front
  | writeOk index =>
    simp only [LinkSession.step, handleWrite] at taken
    split at taken
    · split at taken
      · cases taken
      · split at taken
        · exact front_of_doWrite taken
        · rename_i none
          cases taken
          intro p head
          simp_all
    · cases taken
  | writeError index =>
    simp only [LinkSession.step] at taken
    split at taken
    · cases taken
      exact written.front
    · cases taken

/-- Every session that can be reached has a front that can be written again. -/
theorem frontWritten_of_reaches (reached : (machine layout callFun).Reaches start s) :
    FrontWritten layout s := by
  refine reached.invariant ?_ .initial
  intro before label after written taken
  obtain ⟨old, buffer⟩ := written.addresses (transition_of_step taken)
  exact ⟨old, buffer, written.next_front taken⟩

/-- The peer of a session is lost only through the environment of the session. -/
theorem unlost_of_reaches (reached : (machine layout callFun).Reaches start s) :
    s.lost = false := by
  have kept : ∀ {before : LinkSession} {label : Event} {after : LinkSession},
      before.lost = false → (machine layout callFun).step before label = some after →
        after.lost = false := by
    intro before label after unlost taken
    cases transition_of_step taken <;> exact unlost
  exact reached.invariant kept rfl

/-- A message that answers a request can be queued on any such deque, and answers
it still when the write it causes has been started. -/
theorem Front.queueReply (front : Front layout s) {p : Ptr} {head : RpcStructHead}
    {metaCells bodyCells : List Cell} {result : Option CallStruct}
    (answers : (s.heap p).Answers layout head metaCells bodyCells result) :
    ∃ next, s.queueReply layout p = some next ∧ next.writeMsgs = s.writeMsgs ++ [p] ∧
      (next.heap p).Answers layout head metaCells bodyCells result ∧ next.input = s.input ∧
      next.released = s.released := by
  obtain ⟨first, head, again, body, frame, framed, kept⟩ : ∃ first,
      (s.writeMsgs ++ [p]).head? = some first ∧ ∃ again, (s.heap first).body layout = .ok again ∧
        ∃ frame, again.frame = .ok frame ∧
          ((s.store first again).heap p).Answers layout head metaCells bodyCells result := by
    cases queue : s.writeMsgs with
    | nil =>
      obtain ⟨again, body, ⟨frame, framed⟩, kept⟩ := answers.body
      exact ⟨p, rfl, again, body, frame, framed, by simpa [store] using kept⟩
    | cons first rest =>
      obtain ⟨body, frame, framed⟩ := front first (by simp [queue])
      exact ⟨first, rfl, _, body, frame, framed, by simpa [store] using answers⟩
  have started : s.queueReply layout p = some { s.store first again with
      writeMsgs := s.writeMsgs ++ [p]
      replied := s.replied ++ [p]
      writing := s.writing ++ [first]
      written := s.written ++ [first] } := by
    rw [queueReply_eq]
    simp only [doWrite, head, body, framed, Except.toOption, Option.bind_eq_bind,
      Option.bind_some, Option.pure_def]
    rfl
  exact ⟨_, started, rfl, kept, rfl, rfl⟩

end LinkSession

end RpcLoop
