import RpcLoop.Client.Sending

/-! How many writes are outstanding on the socket of a client with a queue. No
flag says that a write is in progress: every posted `do_write` starts another
one as long as the queue is not empty. -/

namespace RpcLoop.ClientLoop

open Foundation Asio

/-- At most one write is outstanding on the socket. -/
def SingleWriter (s : ClientLoop) : Prop := s.link.writing ≤ 1

/-- A message is handed to the open socket only while no write is outstanding,
apart from the one whose handler does it. -/
def SendsAlone (s : ClientLoop) (event : Event) (_ : ClientLoop) : Prop :=
  ∀ m, sends s event = some m → s.link.opened = true →
    Operation.outstanding s.link.attempt (otherWrites s event) = 0

/-- What such runs keep. -/
structure OneWriter (s : ClientLoop) : Prop where
  early : Operation.Early s.link.attempt s.link.writes
  single : SingleWriter s

variable {layout : IntLayout} {s next : ClientLoop} {event : Event}

theorem OneWriter.initial (csq : ClientSendQueue) : OneWriter (start csq) where
  early _ member := by cases member
  single := Nat.zero_le _

/-- A step keeps a single writer exactly when it sends alone. -/
theorem OneWriter.single_iff (one : OneWriter s) (transition : Transition layout s event next) :
    SingleWriter next ↔ SendsAlone s event next := by
  rcases sends_cases transition one.early with ⟨quiet, _, shrink⟩ |
    ⟨m, op, sending, _, _, conn, on, same⟩
  · constructor
    · intro _ m sending
      rw [quiet] at sending
      cases sending
    · exact fun _ => Nat.le_trans shrink.fewer one.single
  · have count : next.link.writing = Operation.outstanding s.link.attempt (otherWrites s event) +
        if s.link.opened then 1 else 0 := by
      simp [Link.writing, same, on]
    have left : Operation.outstanding s.link.attempt (otherWrites s event) ≤ s.link.writing := by
      cases event with
      | handleWrite index error => exact Operation.outstanding_eraseIdx_le index
      | _ => exact Nat.le_refl _
    have single := one.single
    simp only [SingleWriter] at single ⊢
    constructor
    · intro few other _ opened
      rw [if_pos opened] at count
      omega
    · intro alone
      by_cases opened : s.link.opened = true
      · have none := alone m sending opened
        rw [if_pos opened] at count
        omega
      · rw [if_neg opened] at count
        omega

/-- A client with a queue has at most one write outstanding throughout a run
exactly when no step of the run sends beside an outstanding write. -/
theorem singleWriter_iff_sendsAlone (layout : IntLayout) (schedule : List Event) :
    (machine layout).Always SingleWriter (start .on) schedule ↔
      (machine layout).AllSteps SendsAlone (start .on) schedule := by
  apply Machine.always_iff OneWriter
  · exact fun one => one.single
  · exact fun one taken => one.single_iff (transition_of_step taken)
  · intro before label after one taken guarded
    have transition := transition_of_step taken
    exact ⟨early_step transition one.early, (one.single_iff transition).mpr guarded⟩
  · exact OneWriter.initial .on

/-- The first connect succeeds. -/
def comesUp : List Event := [.connected 0, .handleConnect 0 false]

/-- One caller's `write` of a one-byte body, without interruption. -/
def wholeWrite (body : UInt8) : List Event :=
  [.beginWrite [some body] 1, .push 0, .insert 0, .arm 0, .post 0]

/-- Two writes on an established connection, whose posted handlers run one after the other. -/
def twoWrites : List Event :=
  comesUp ++ wholeWrite 7 ++ wholeWrite 8 ++ [.runPosted 0, .runPosted 0]

/-- Both messages are being written at once. -/
theorem twoWrites_overlap :
    ¬ (machine .littleEndian).Always SingleWriter (start .on) twoWrites := by
  intro always
  have outcome : ((machine .littleEndian).run (start .on) twoWrites).map (fun s => s.link.writing) =
      some 2 := by
    decide +kernel
  obtain ⟨final, reached, writing⟩ := Option.map_eq_some_iff.mp outcome
  have single := always.final reached
  rw [SingleWriter, writing] at single
  omega

end RpcLoop.ClientLoop
