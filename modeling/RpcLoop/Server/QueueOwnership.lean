import RpcLoop.Server.ReplyOrder

/-! Who keeps the buffer of an outstanding write alive. The deque is the only
owner, and `handle_write` drops its front whichever write completed. -/

namespace RpcLoop.LinkSession

open Foundation

/-- Every message being written is still in the deque, so `front` and
`pop_front` find one when any outstanding write completes. -/
structure OwnsWrites (s : LinkSession) : Prop where
  held : ∀ p ∈ s.writing, p ∈ s.writeMsgs
  nonempty : s.writing ≠ [] → s.writeMsgs ≠ []

/-- A completed write's handler removes the message that was written, and every
message still being written stays owned. -/
structure PopsCompleted (s : LinkSession) (event : Event) (next : LinkSession) : Prop where
  popped : ∀ index p, event = .writeOk index → s.writing[index]? = some p →
    s.writeMsgs = p :: next.writeMsgs
  owned : OwnsWrites next

/-- A write completes only while it is the only one outstanding. -/
def Alone (s : LinkSession) (event : Event) (_ : LinkSession) : Prop :=
  ∀ index, event = .writeOk index → s.writing.length = 1

/-- What such runs keep: whatever is being written is the front of the deque. -/
structure FrontOnly (s : LinkSession) : Prop where
  front : ∀ p ∈ s.writing, s.writeMsgs.head? = some p
  distinct : s.writeMsgs.Nodup
  old : ∀ p ∈ s.writeMsgs, p < s.allocated
  buffer : ∀ p length, s.reading = .msg p length → p < s.allocated ∧ p ∉ s.writeMsgs

variable {s next : LinkSession} {event : Event}

theorem FrontOnly.initial : FrontOnly start where
  front _ member := by cases member
  distinct := List.nodup_nil
  old _ member := by cases member
  buffer _ _ same := by cases same

theorem FrontOnly.ownsWrites (only : FrontOnly s) : OwnsWrites s where
  held p member := List.mem_of_mem_head? (only.front p member)
  nonempty writing empty := by
    obtain ⟨p, rest, same⟩ := List.exists_cons_of_ne_nil writing
    have front := only.front p (by simp [same])
    simp [empty] at front

theorem FrontOnly.queued_new (only : FrontOnly s) {p queued : Ptr} {length : Int32}
    (reading : s.reading = .msg p length) (which : queued = p ∨ queued = s.allocated) :
    queued < s.allocated + 1 ∧ queued ∉ s.writeMsgs := by
  rcases which with rfl | rfl
  · have known := only.buffer _ _ reading
    exact ⟨Nat.lt_succ_of_lt known.1, known.2⟩
  · exact ⟨Nat.lt_succ_self _, fun member => Nat.lt_irrefl _ (only.old _ member)⟩

theorem FrontOnly.head_append (only : FrontOnly s) {queued front p : Ptr}
    (first : (s.writeMsgs ++ [queued]).head? = some front) (member : p ∈ s.writing ++ [front]) :
    (s.writeMsgs ++ [queued]).head? = some p := by
  rcases List.mem_append.mp member with earlier | last
  · have held := only.front p earlier
    cases queue : s.writeMsgs with
    | nil => simp [queue] at held
    | cons head rest => simpa [queue] using held
  · rw [List.mem_singleton.mp last]
    exact first

/-- The only outstanding write completes: its message leaves the deque and the
next front, if there is one, is written. -/
theorem FrontOnly.completed (only : FrontOnly s) {index : Nat} (alone : s.writing.length = 1)
    (inside : index < s.writing.length) {front : Ptr} {rest : List Ptr}
    (queue : s.writeMsgs = front :: rest) :
    s.writing[index]? = some front ∧ s.writing.eraseIdx index = [] := by
  obtain ⟨p, single⟩ := List.length_eq_one_iff.mp alone
  have zero : index = 0 := by omega
  have same := only.front p (by simp [single])
  rw [queue] at same
  cases same
  simp [single, zero]

theorem FrontOnly.step (only : FrontOnly s) (transition : Transition s event next)
    (guarded : Alone s event next) : FrontOnly next := by
  cases transition with
  | arrived bytes input => exact ⟨only.front, only.distinct, only.old, only.buffer⟩
  | header reading heap length input =>
    refine ⟨only.front, only.distinct, ?_, ?_⟩
    · intro p member
      exact Nat.lt_succ_of_lt (only.old p member)
    · intro p size same
      cases same
      exact ⟨Nat.lt_succ_self _, fun member => Nat.lt_irrefl _ (only.old _ member)⟩
  | request p length reading queued front which first heap input handled calls released =>
    have new := only.queued_new reading which
    refine ⟨fun q member => only.head_append first member, ?_, ?_, ?_⟩
    · apply List.nodup_append.mpr
      refine ⟨only.distinct, by simp, ?_⟩
      intro q earlier last same
      rw [List.mem_singleton.mp same]
      rintro rfl
      exact new.2 earlier
    · intro q member
      rcases List.mem_append.mp member with earlier | last
      · exact Nat.lt_succ_of_lt (only.old q earlier)
      · rw [List.mem_singleton.mp last]
        exact new.1
    · intro q size same
      cases same
  | readFailed => exact ⟨only.front, only.distinct, only.old, fun _ _ same => by cases same⟩
  | written index inside front rest queue heap =>
    have done := only.completed (guarded index rfl) inside queue
    have distinct := only.distinct
    rw [queue, List.nodup_cons] at distinct
    refine ⟨?_, distinct.2, ?_, ?_⟩
    · intro p member
      simpa [done.2] using member
    · intro p member
      exact only.old p (by simp [queue, member])
    · intro p length reading
      have known := only.buffer p length reading
      rw [queue] at known
      exact ⟨known.1, fun member => known.2 (List.mem_cons_of_mem _ member)⟩
  | writeFailed index inside =>
    exact ⟨fun p member => only.front p (List.mem_of_mem_eraseIdx member), only.distinct,
      only.old, only.buffer⟩

theorem FrontOnly.popsCompleted (only : FrontOnly s) (transition : Transition s event next)
    (guarded : Alone s event next) : PopsCompleted s event next := by
  refine ⟨?_, (only.step transition guarded).ownsWrites⟩
  intro index p same found
  cases transition with
  | written other inside front rest queue heap =>
    cases same
    have done := only.completed (guarded index rfl) inside queue
    cases done.1.symm.trans found
    exact queue
  | arrived => cases same
  | header => cases same
  | request => cases same
  | readFailed => cases same
  | writeFailed => cases same

theorem FrontOnly.overlap (only : FrontOnly s) (transition : Transition s event next)
    (owned : OwnsWrites next) : Alone s event next := by
  intro index same
  cases transition with
  | written other inside front rest queue heap =>
    cases same
    apply Classical.byContradiction
    intro several
    have more : 0 < (s.writing.eraseIdx index).length := by
      rw [List.length_eraseIdx_of_lt inside]
      omega
    obtain ⟨p, member⟩ := List.exists_mem_of_length_pos more
    have head := only.front p (List.mem_of_mem_eraseIdx member)
    rw [queue] at head
    cases head
    have distinct := only.distinct
    rw [queue, List.nodup_cons] at distinct
    exact distinct.1 (owned.held _ (List.mem_append_left _ member))
  | arrived => cases same
  | header => cases same
  | request => cases same
  | readFailed => cases same
  | writeFailed => cases same

/-- The deque owns every outstanding write, and each completion removes the
message it is about, throughout a run exactly when no write of the run
completes beside another one. -/
theorem popsCompleted_iff_alone (layout : IntLayout) (callFun : Option CallbackFun)
    (schedule : List Event) :
    (machine layout callFun).AllSteps PopsCompleted start schedule ↔
      (machine layout callFun).AllSteps Alone start schedule := by
  apply Machine.allSteps_iff FrontOnly
  · intro before label after only taken
    have transition := transition_of_step taken
    constructor
    · exact fun pops => only.overlap transition pops.owned
    · exact fun guarded => only.popsCompleted transition guarded
  · exact fun only taken guarded => only.step (transition_of_step taken) guarded
  · exact FrontOnly.initial

/-- Two requests overlap and their first write completes. -/
def overlapped : List Event := pipelined ++ [.writeOk 0]

/-- The first message is still being written a second time, but no longer owned. -/
theorem overlapped_loses_owner :
    ¬ (machine .littleEndian none).AllSteps PopsCompleted start overlapped := by
  intro all
  have outcome : ((machine .littleEndian none).run start pipelined).map
      (fun s => (s.writing.length, ((machine .littleEndian none).step s (.writeOk 0)).map
        fun next => (next.writing, next.writeMsgs))) = some (2, some ([0, 2], [2])) := by
    decide +kernel
  obtain ⟨middle, reached, same⟩ := Option.map_eq_some_iff.mp outcome
  obtain ⟨final, taken, lists⟩ := Option.map_eq_some_iff.mp (Prod.mk.inj same).2
  obtain ⟨writing, queue⟩ := Prod.mk.inj lists
  have held := (all.suffix reached final taken).1.owned.held 0 (by simp [writing])
  simp [queue] at held

end RpcLoop.LinkSession
