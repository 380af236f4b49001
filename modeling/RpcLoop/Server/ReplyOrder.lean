import RpcLoop.Server.Transition

/-! The order of a session's replies. `reply` starts a write whenever the deque
is not empty, also while an earlier write is outstanding, so replies keep their
order exactly in the runs in which no two requests overlap. -/

namespace RpcLoop.LinkSession

open Foundation

/-- At most one write is outstanding, and what was handed to `async_write` is
what `reply` queued, from the first reply on and without a gap. -/
structure OrderedReplies (s : LinkSession) : Prop where
  single : s.writing.length ≤ 1
  ordered : s.written <+: s.replied

/-- A request is handled only while no earlier reply is queued. -/
def LockStep (s : LinkSession) (event : Event) (_ : LinkSession) : Prop :=
  event = .readOk → ∀ p length, s.reading = .msg p length → s.writeMsgs = []

/-- What lock-step runs keep: every queued reply has been written once. -/
structure Serial (s : LinkSession) : Prop where
  matched : s.written = s.replied
  short : s.writeMsgs.length ≤ 1
  outstanding : s.writing = [] ∨ s.writing = s.writeMsgs
  known : ∀ p ∈ s.writeMsgs, p ∈ s.replied
  old : ∀ p ∈ s.replied, p < s.allocated
  buffer : ∀ p length, s.reading = .msg p length → p < s.allocated ∧ p ∉ s.replied

variable {layout : IntLayout} {callFun : Option CallbackFun} {s next : LinkSession} {event : Event}

theorem Serial.initial : Serial start where
  matched := rfl
  short := Nat.zero_le _
  outstanding := .inl rfl
  known _ member := by cases member
  old _ member := by cases member
  buffer _ _ same := by cases same

theorem Serial.orderedReplies (serial : Serial s) : OrderedReplies s where
  single := by
    rcases serial.outstanding with none | all
    · simp [none]
    · simpa [all] using serial.short
  ordered := ⟨[], (List.append_nil _).trans serial.matched⟩

theorem Serial.queued_new (serial : Serial s) {p queued : Ptr} {length : Int32}
    (reading : s.reading = .msg p length) (which : queued = p ∨ queued = s.allocated) :
    queued ∉ s.replied := by
  intro member
  rcases which with rfl | rfl
  · exact (serial.buffer _ _ reading).2 member
  · exact Nat.lt_irrefl _ (serial.old _ member)

theorem Serial.request (serial : Serial s) {p queued front : Ptr} {length : Int32}
    (reading : s.reading = .msg p length) (which : queued = p ∨ queued = s.allocated)
    (first : (s.writeMsgs ++ [queued]).head? = some front) (empty : s.writeMsgs = [])
    (after : next = { next with
      allocated := s.allocated + 1
      reading := .head
      writeMsgs := s.writeMsgs ++ [queued]
      writing := s.writing ++ [front]
      replied := s.replied ++ [queued]
      written := s.written ++ [front] }) : Serial next := by
  have same : queued = front := by simpa [empty] using first
  subst same
  have idle : s.writing = [] := by
    rcases serial.outstanding with none | all
    · exact none
    · rw [all, empty]
  have bound : queued < s.allocated + 1 := by
    rcases which with rfl | rfl
    · exact Nat.lt_succ_of_lt (serial.buffer _ _ reading).1
    · exact Nat.lt_succ_self _
  rw [after]
  constructor
  · simp [serial.matched]
  · simp [empty]
  · exact .inr (by simp [empty, idle])
  · simp [empty]
  · intro q member
    rcases List.mem_append.mp member with earlier | last
    · exact Nat.lt_succ_of_lt (serial.old q earlier)
    · simpa [List.mem_singleton.mp last] using bound
  · intro q size wrong
    cases wrong

theorem Serial.step (serial : Serial s) (transition : Transition s event next)
    (guarded : LockStep s event next) : Serial next := by
  cases transition with
  | arrived bytes input => exact ⟨serial.matched, serial.short, serial.outstanding, serial.known,
      serial.old, serial.buffer⟩
  | header reading heap length input =>
    refine ⟨serial.matched, serial.short, serial.outstanding, serial.known, ?_, ?_⟩
    · intro p member
      exact Nat.lt_succ_of_lt (serial.old p member)
    · intro p size same
      cases same
      exact ⟨Nat.lt_succ_self _, fun member => Nat.lt_irrefl _ (serial.old _ member)⟩
  | request p length reading queued front which first heap input handled calls released =>
    exact serial.request reading which first (guarded rfl p length reading) rfl
  | readFailed =>
    exact ⟨serial.matched, serial.short, serial.outstanding, serial.known, serial.old,
      fun _ _ same => by cases same⟩
  | written index inside front rest queue heap =>
    have alone : rest = [] := by
      have short := serial.short
      rw [queue, List.length_cons] at short
      exact List.length_eq_zero_iff.mp (by omega)
    subst alone
    have idle : s.writing.eraseIdx index = [] := by
      rcases serial.outstanding with none | all
      · simp [none] at inside
      · rw [all, queue]
        rw [all, queue] at inside
        have zero : index = 0 := by simpa using inside
        simp [zero]
    refine ⟨?_, Nat.zero_le _, .inl ?_, ?_, serial.old, serial.buffer⟩
    · simpa using serial.matched
    · simpa using idle
    · simp
  | writeFailed index inside =>
    refine ⟨serial.matched, serial.short, .inl ?_, serial.known, serial.old, serial.buffer⟩
    rcases serial.outstanding with none | all
    · simp [none]
    · have short := serial.short
      rw [← all] at short
      apply List.length_eq_zero_iff.mp
      rw [List.length_eraseIdx_of_lt inside]
      omega

theorem Serial.overlap (serial : Serial s) (transition : Transition s event next)
    (ordered : OrderedReplies next) : LockStep s event next := by
  intro same p length reading
  cases transition with
  | request q size found queued front which first heap input handled calls released =>
    cases queue : s.writeMsgs with
    | nil => rfl
    | cons head rest =>
      have again : head = front := by simpa [queue] using first
      have written := ordered.ordered
      rw [serial.matched] at written
      have equal : front = queued := by
        have ends := written.eq_of_length (by simp)
        simpa using ends
      have member := serial.known head (by simp [queue])
      rw [again, equal] at member
      exact False.elim (serial.queued_new found which member)
  | header found => rw [found] at reading; cases reading
  | arrived => cases same
  | readFailed => cases same
  | written => cases same
  | writeFailed => cases same

/-- Replies are written once each and in order, one at a time, throughout a run
exactly when every request of the run is handled on an empty deque. -/
theorem orderedReplies_iff_lockStep (layout : IntLayout) (callFun : Option CallbackFun)
    (schedule : List Event) :
    (machine layout callFun).Always OrderedReplies start schedule ↔
      (machine layout callFun).AllSteps LockStep start schedule := by
  apply Machine.always_iff Serial
  · exact fun serial => serial.orderedReplies
  · intro before label after serial taken
    have transition := transition_of_step taken
    constructor
    · exact fun ordered => serial.overlap transition ordered
    · exact fun guarded => (serial.step transition guarded).orderedReplies
  · exact fun serial taken guarded => serial.step (transition_of_step taken) guarded
  · exact Serial.initial

/-- A request frame with eight bytes of meta data and a one-byte body. -/
def shortFrame (reqId body : UInt8) : List UInt8 :=
  [reqId, 0, 0, 0, 1, 0, 0, 0, 8, 0, 0, 0, 49, 50, 51, 52, 53, 54, 55, 56, body]

/-- Two requests arrive together and both are handled before a write completes. -/
def pipelined : List Event :=
  [.arrive (shortFrame 1 7 ++ shortFrame 2 8), .readOk, .readOk, .readOk, .readOk]

/-- The first reply is handed to `async_write` twice and both writes are outstanding. -/
theorem pipelined_repeats_first_reply :
    ¬ (machine .littleEndian none).Always OrderedReplies start pipelined := by
  intro always
  have outcome : ((machine .littleEndian none).run start pipelined).map
      (fun s => (s.writing, s.written, s.replied)) = some ([0, 0], [0, 0], [0, 2]) := by
    decide +kernel
  obtain ⟨final, reached, same⟩ := Option.map_eq_some_iff.mp outcome
  have single := (always.final reached).single
  rw [(Prod.mk.inj same).1] at single
  simp at single

end RpcLoop.LinkSession
