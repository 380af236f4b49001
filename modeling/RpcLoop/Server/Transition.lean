import RpcLoop.Server.Session

/-! What each step of a session can do to its queue, its outstanding writes and
its history. Later results use these inversion lemmas and never unfold a handler. -/

namespace RpcLoop.LinkSession

open Foundation

variable {layout : IntLayout} {callFun : Option CallbackFun} {s next : LinkSession}

theorem doWrite_cases (step : s.doWrite layout = some next) :
    ∃ front heap, s.writeMsgs.head? = some front ∧
      next = { s with
        heap := heap
        writing := s.writing ++ [front]
        written := s.written ++ [front] } := by
  simp only [doWrite, Option.bind_eq_bind, Option.bind_eq_some_iff, Option.pure_def] at step
  obtain ⟨front, first, msg, _, _, _, same⟩ := step
  cases same
  exact ⟨front, _, first, rfl⟩

theorem queueReply_cases {p : Ptr} (step : s.queueReply layout p = some next) :
    ∃ front heap, (s.writeMsgs ++ [p]).head? = some front ∧
      next = { s with
        heap := heap
        writeMsgs := s.writeMsgs ++ [p]
        writing := s.writing ++ [front]
        replied := s.replied ++ [p]
        written := s.written ++ [front] } := by
  have nonempty : (s.writeMsgs ++ [p]).isEmpty = false := by simp
  simp only [queueReply, nonempty, if_true] at step
  obtain ⟨front, heap, first, same⟩ := doWrite_cases step
  exact ⟨front, heap, first, same⟩

/-- The result that `reply` is the last owner of. -/
def releasedBy (result : Option CallStruct) : List CallStruct :=
  (result.filter fun res => !res.kept).toList

theorem release_eq (s : LinkSession) (res : CallStruct) :
    s.release res = { s with released := s.released ++ releasedBy (some res) } := by
  unfold release
  cases owner : res.kept with
  | true => simp [releasedBy, Option.filter, owner]
  | false => simp [releasedBy, Option.filter, owner]

private theorem reply_cases {p : Ptr} (step : s.reply layout callFun p = some next) :
    ∃ queued front heap calls released, (queued = p ∨ queued = s.allocated) ∧
      (s.writeMsgs ++ [queued]).head? = some front ∧
      next = { s with
        heap := heap
        allocated := s.allocated + 1
        writeMsgs := s.writeMsgs ++ [queued]
        writing := s.writing ++ [front]
        calls := calls
        replied := s.replied ++ [queued]
        written := s.written ++ [front]
        released := released } := by
  unfold reply at step
  cases callFun with
  | none =>
    obtain ⟨front, heap, first, same⟩ := queueReply_cases step
    exact ⟨p, front, heap, s.calls, s.released, .inl rfl, first, same⟩
  | some callback =>
    simp only [Option.bind_eq_bind, Option.bind_eq_some_iff] at step
    obtain ⟨msg, _, step⟩ := step
    split at step
    · obtain ⟨front, heap, first, same⟩ := queueReply_cases step
      exact ⟨p, front, heap, _, _, .inl rfl, first, same⟩
    · split at step
      · simp only [Option.bind_eq_some_iff, release_eq] at step
        obtain ⟨built, _, step⟩ := step
        obtain ⟨front, heap, first, same⟩ := queueReply_cases step
        exact ⟨s.allocated, front, heap, _, _, .inr rfl, first, same⟩
      · rw [release_eq] at step
        obtain ⟨front, heap, first, same⟩ := queueReply_cases step
        exact ⟨p, front, heap, _, _, .inl rfl, first, same⟩

theorem handleReadMsg_cases {p : Ptr} (step : s.handleReadMsg layout callFun p = some next) :
    ∃ queued front heap calls handled released, (queued = p ∨ queued = s.allocated) ∧
      (s.writeMsgs ++ [queued]).head? = some front ∧
      next = { s with
        heap := heap
        allocated := s.allocated + 1
        reading := .head
        writeMsgs := s.writeMsgs ++ [queued]
        writing := s.writing ++ [front]
        handled := handled
        calls := calls
        replied := s.replied ++ [queued]
        written := s.written ++ [front]
        released := released } := by
  simp only [handleReadMsg, Option.bind_eq_bind, Option.pure_def] at step
  split at step
  · cases step
  · simp only [Option.bind_eq_some_iff] at step
    obtain ⟨msg, _, replied, reply, same⟩ := step
    obtain ⟨queued, front, heap, calls, released, which, first, rfl⟩ := reply_cases reply
    cases same
    exact ⟨queued, front, heap, calls, _, released, which, first, rfl⟩

theorem handleReadHeader_cases {bytes : List UInt8}
    (step : s.handleReadHeader layout bytes = some next) :
    ∃ heap length, next = { s with
      heap := heap
      allocated := s.allocated + 1
      reading := .msg s.allocated length } := by
  simp only [handleReadHeader, Option.bind_eq_bind, Option.bind_eq_some_iff,
    Option.pure_def] at step
  obtain ⟨readBuf, _, same⟩ := step
  cases same
  exact ⟨_, _, rfl⟩

private theorem handleWrite_cases (step : s.handleWrite layout = some next) :
    ∃ front rest heap, s.writeMsgs = front :: rest ∧
      next = { s with
        heap := heap
        writeMsgs := rest
        writing := s.writing ++ rest.head?.toList
        written := s.written ++ rest.head?.toList } := by
  unfold handleWrite at step
  split at step
  · cases step
  · rename_i front rest queue
    cases rest with
    | nil =>
      cases step
      exact ⟨front, [], s.heap, queue, by simp⟩
    | cons second rest =>
      obtain ⟨started, heap, first, same⟩ := doWrite_cases step
      cases first
      exact ⟨front, second :: rest, heap, queue, same⟩

/-- The steps of a session, by what they do to the reading loop and the writes. -/
inductive Transition (s : LinkSession) : Event → LinkSession → Prop where
  | arrived (bytes : List UInt8) (input : List UInt8) :
      Transition s (.arrive bytes) { s with input := input }
  | header (reading : s.reading = .head) (heap : Ptr → RpcStruct) (length : Int32)
      (input : List UInt8) :
      Transition s .readOk { s with
        heap := heap
        allocated := s.allocated + 1
        reading := .msg s.allocated length
        input := input }
  | request (p : Ptr) (length : Int32) (reading : s.reading = .msg p length)
      (queued front : Ptr) (which : queued = p ∨ queued = s.allocated)
      (first : (s.writeMsgs ++ [queued]).head? = some front) (heap : Ptr → RpcStruct)
      (input : List UInt8) (handled : List RpcStruct) (calls : List Call)
      (released : List CallStruct) :
      Transition s .readOk { s with
        heap := heap
        allocated := s.allocated + 1
        reading := .head
        writeMsgs := s.writeMsgs ++ [queued]
        writing := s.writing ++ [front]
        input := input
        handled := handled
        calls := calls
        replied := s.replied ++ [queued]
        written := s.written ++ [front]
        released := released }
  | readFailed : Transition s .readError { s with reading := .stopped }
  | written (index : Nat) (inside : index < s.writing.length) (front : Ptr) (rest : List Ptr)
      (queue : s.writeMsgs = front :: rest) (heap : Ptr → RpcStruct) :
      Transition s (.writeOk index) { s with
        heap := heap
        writeMsgs := rest
        writing := s.writing.eraseIdx index ++ rest.head?.toList
        written := s.written ++ rest.head?.toList }
  | writeFailed (index : Nat) (inside : index < s.writing.length) :
      Transition s (.writeError index) { s with writing := s.writing.eraseIdx index }

theorem transition_of_step {event : Event}
    (step : (machine layout callFun).step s event = some next) : Transition s event next := by
  change LinkSession.step layout callFun s event = some next at step
  cases event with
  | arrive bytes =>
    cases step
    exact .arrived bytes _
  | readOk =>
    simp only [LinkSession.step, completeRead] at step
    split at step
    · cases step
    · rename_i reading
      split at step
      · obtain ⟨heap, length, rfl⟩ := handleReadHeader_cases step
        exact .header reading heap length _
      · cases step
    · rename_i p length reading
      split at step
      · simp only [Option.bind_eq_bind, Option.bind_eq_some_iff] at step
        obtain ⟨msg, _, step⟩ := step
        obtain ⟨queued, front, heap, calls, handled, released, which, first, rfl⟩ :=
          handleReadMsg_cases step
        exact .request p length reading queued front which first heap _ handled calls released
      · cases step
  | readError =>
    simp only [LinkSession.step] at step
    split at step
    · cases step
    · cases step
      exact .readFailed
  | writeOk index =>
    simp only [LinkSession.step] at step
    split at step
    · rename_i inside
      obtain ⟨front, rest, heap, queue, rfl⟩ := handleWrite_cases step
      exact .written index inside front rest queue heap
    · cases step
  | writeError index =>
    simp only [LinkSession.step] at step
    split at step
    · rename_i inside
      cases step
      exact .writeFailed index inside
    · cases step

private theorem released_of_reply {p : Ptr} (step : s.reply layout callFun p = some next) :
    ∃ calls, next.released = s.released ++
      releasedBy (callFun.bind fun callback => callback calls) := by
  unfold reply at step
  cases callFun with
  | none =>
    obtain ⟨front, heap, _, rfl⟩ := queueReply_cases step
    exact ⟨[], (List.append_nil _).symm⟩
  | some callback =>
    simp only [Option.bind_eq_bind, Option.bind_eq_some_iff] at step
    obtain ⟨msg, _, step⟩ := step
    split at step
    · rename_i silent
      obtain ⟨front, heap, _, rfl⟩ := queueReply_cases step
      have deleted : s.released = s.released ++ releasedBy none := (List.append_nil _).symm
      rw [← silent] at deleted
      exact ⟨_, deleted⟩
    · rename_i res answer
      have deleted : next.released = s.released ++ releasedBy (some res) := by
        split at step
        · simp only [Option.bind_eq_some_iff, release_eq] at step
          obtain ⟨built, _, step⟩ := step
          obtain ⟨front, heap, _, rfl⟩ := queueReply_cases step
          rfl
        · rw [release_eq] at step
          obtain ⟨front, heap, _, rfl⟩ := queueReply_cases step
          rfl
      rw [deleted, ← answer]
      exact ⟨_, rfl⟩

/-- What a step deletes is a result of the callback that nobody else owns. -/
theorem released_of_step {event : Event}
    (step : (machine layout callFun).step s event = some next) :
    next.released = s.released ∨ ∃ calls, next.released = s.released ++
      releasedBy (callFun.bind fun callback => callback calls) := by
  have transition := transition_of_step step
  cases transition with
  | request p length reading =>
    right
    have taken : s.completeRead layout callFun = some _ := step
    simp only [completeRead, reading] at taken
    split at taken
    · simp only [Option.bind_eq_bind, Option.bind_eq_some_iff, handleReadMsg] at taken
      obtain ⟨msg, _, taken⟩ := taken
      split at taken
      · cases taken
      · simp only [Option.bind_eq_some_iff, Option.pure_def, Option.some.injEq] at taken
        obtain ⟨shown, _, replied, reply, same⟩ := taken
        obtain ⟨calls, deleted⟩ := released_of_reply reply
        rw [← same]
        exact ⟨calls, deleted⟩
    · cases taken
  | _ => exact .inl rfl

/-- On a connection that the peer has reset nothing more is executed. -/
theorem calls_of_lost {event : Event} (lost : s.lost = true)
    (step : (machine layout callFun).step s event = some next) :
    next.lost = true ∧ next.handled = s.handled ∧ next.calls = s.calls ∧
      next.released = s.released := by
  have transition := transition_of_step step
  cases transition with
  | request p length reading =>
    have taken : s.completeRead layout callFun = some _ := step
    simp [completeRead, reading, handleReadMsg, store, lost] at taken
  | _ => exact ⟨lost, rfl, rfl, rfl⟩

end RpcLoop.LinkSession
