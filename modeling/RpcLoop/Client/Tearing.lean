import Mathlib.Data.List.Infix
import RpcLoop.Client.Ownership

/-! The bytes of overlapping writes. An `async_write` sends its buffer in pieces,
and nothing orders the pieces of one operation against those of another. Nor does
it own the buffer: what goes out of a message that has been freed is unknown. -/

namespace RpcLoop

open Foundation Asio Shared ClientLoop

/-- The frame of the message, as `async_write` was given it. -/
def frameCells (m : Outgoing) : List Cell := m.obj.frame.toOption.getD []

/-- A client with what has been sent on its current connection. -/
structure WireClient extends OwningClient where
  base : Nat
  sent : Ptr → Nat
  wire : List Cell

namespace WireClient

inductive Event where
  | loop (event : ClientLoop.Event)
  | ret (caller : Nat)
  | piece (index : Nat) (count : Nat)

def start (csq : ClientSendQueue) : WireClient where
  toOwningClient := .start csq
  base := 0
  sent _ := 0
  wire := []

/-- The messages handed to `async_write` since the connection attempt was made. -/
def started (s : WireClient) : List Outgoing := s.loop.handed.drop s.base

/-- What is left to send of a message. -/
def unsent (s : WireClient) (m : Outgoing) : List Cell := (frameCells m).drop (s.sent m.addr)

/-- What there is to send of it now: freed memory holds nothing known. -/
def shows (s : WireClient) (m : Outgoing) : List Cell :=
  if OwningClient.Held s.owners m then frameCells m
  else List.replicate (frameCells m).length none

/-- A write is complete when its last piece has been sent. -/
def mayHappen (s : WireClient) : ClientLoop.Event → Bool
  | .sent index => s.loop.link.writes[index]?.any fun op => (s.unsent op.what).isEmpty
  | _ => true

/-- Some of what is left of a message goes out. -/
def advance (s : WireClient) (m : Outgoing) (count : Nat) : WireClient :=
  { s with
    sent := Function.update s.sent m.addr (s.sent m.addr + count)
    wire := s.wire ++ ((s.shows m).drop (s.sent m.addr)).take count }

/-- A write on the current connection sends a piece. -/
def sendPiece (s : WireClient) (index count : Nat) : Option WireClient := do
  let op ← s.loop.link.writes[index]?
  if op.state = .live ∧ op.conn = s.loop.link.attempt ∧ s.loop.link.connected ∧ 0 < count ∧
      count ≤ (s.unsent op.what).length then
    return s.advance op.what count
  else none

/-- The client behind a step; a new connection starts with nothing sent. -/
def follow (s : WireClient) (after : OwningClient) : WireClient :=
  if after.loop.link.attempt = s.loop.link.attempt then { s with toOwningClient := after }
  else { s with toOwningClient := after, base := after.loop.handed.length, wire := [] }

def step (layout : IntLayout) (s : WireClient) : Event → Option WireClient
  | .loop event =>
    if s.mayHappen event then (s.toOwningClient.step layout (.loop event)).map s.follow else none
  | .ret caller => (s.toOwningClient.step layout (.ret caller)).map s.follow
  | .piece index count => s.sendPiece index count

def machine (layout : IntLayout) : Machine WireClient Event where
  step := step layout

/-- What was sent is the beginning of whole frames, in the order of their handlers. -/
def NeverTorn (s : WireClient) : Prop := s.wire <+: s.started.flatMap frameCells

/-- Everything started before the write has been sent. -/
def oldest (s : WireClient) (index : Nat) : Bool :=
  match s.loop.link.writes[index]? with
  | none => true
  | some op =>
    (s.started.takeWhile (·.addr != op.what.addr)).all fun m => (s.unsent m).isEmpty

/-- Where the writes of two handlers overlap, the later one sends nothing before
the earlier one has sent all; and a message keeps an owner while it is written. -/
def KeepsFrames (s : WireClient) (event : Event) (next : WireClient) : Prop :=
  match event with
  | .loop inner => OwningClient.KeepsOwner s.toOwningClient (.loop inner) next.toOwningClient
  | .ret caller => OwningClient.KeepsOwner s.toOwningClient (.ret caller) next.toOwningClient
  | .piece index _ => s.oldest index = true

@[simp] theorem length_shows (s : WireClient) (m : Outgoing) :
    (s.shows m).length = (frameCells m).length := by
  unfold shows
  split
  · rfl
  · exact List.length_replicate

theorem keepsFrames_of_quiet {s next : WireClient} {inner : ClientLoop.Event}
    (quiet : sends s.loop inner = none) : KeepsFrames s (.loop inner) next :=
  OwningClient.keepsOwner_of_quiet quiet

/-- What is left to send of all messages, the oldest first. -/
def due (s : WireClient) : List Cell := s.started.flatMap s.unsent

/-- What such runs keep. -/
structure Untorn (s : WireClient) : Prop where
  owning : OwningClient.Owning s.toOwningClient
  base : s.base ≤ s.loop.handed.length
  current : ∀ op ∈ s.loop.link.writes, op.conn = s.loop.link.attempt → op.what ∈ s.started
  fresh : ∀ a, refs some s.loop.handed a = 0 → s.sent a = 0
  due : s.wire ++ s.due = s.started.flatMap frameCells

variable {layout : IntLayout} {s next : WireClient} {event : Event}

theorem Untorn.initial (csq : ClientSendQueue) : Untorn (start csq) where
  owning := .initial csq
  base := Nat.le_refl _
  current _ member := by cases member
  fresh _ _ := rfl
  due := rfl

theorem Untorn.placed (untorn : Untorn s) : Placed s.loop := untorn.owning.placed

theorem Untorn.neverTorn (untorn : Untorn s) : NeverTorn s := ⟨s.due, untorn.due⟩

theorem Untorn.split (untorn : Untorn s) {op : Operation Outgoing}
    (member : op ∈ s.loop.link.writes) (current : op.conn = s.loop.link.attempt) :
    ∃ before after, s.started = before ++ op.what :: after ∧
      (∀ m ∈ before, m.addr ≠ op.what.addr) ∧ ∀ m ∈ after, m.addr ≠ op.what.addr := by
  obtain ⟨before, after, same⟩ := List.append_of_mem (untorn.current op member current)
  have all : refs some s.loop.handed op.what.addr ≤ 1 := by
    have once := untorn.placed.distinct op.what.addr
    simp only [line, List.map_append, List.count_append] at once
    simp only [refs, List.filterMap_some]
    omega
  have whole : s.loop.handed = s.loop.handed.take s.base ++ (before ++ op.what :: after) := by
    rw [← same, started, List.take_append_drop]
  rw [whole] at all
  simp at all
  refine ⟨before, after, same, ?_, ?_⟩
  · intro m known addr
    have there := refs_pos (f := some) known rfl
    rw [addr] at there
    omega
  · intro m known addr
    have there := refs_pos (f := some) known rfl
    rw [addr] at there
    omega

@[simp] theorem started_advance (m : Outgoing) (count : Nat) :
    (s.advance m count).started = s.started := rfl

private theorem unsent_advance (m : Outgoing) (count : Nat) :
    (s.advance m count).unsent m = (s.unsent m).drop count := by
  simp [unsent, advance, List.drop_drop]

theorem unsent_advance_of_ne {m other : Outgoing} (different : other.addr ≠ m.addr) (count : Nat) :
    (s.advance m count).unsent other = s.unsent other := by
  simp [unsent, advance, different]

theorem sendPiece_cases {index count : Nat} (sending : s.sendPiece index count = some next) :
    ∃ op, s.loop.link.writes[index]? = some op ∧ op.conn = s.loop.link.attempt ∧
      next = s.advance op.what count := by
  simp only [sendPiece, Option.bind_eq_bind, Option.bind_eq_some_iff, Option.pure_def] at sending
  obtain ⟨op, found, taken⟩ := sending
  split at taken
  · rename_i allowed
    exact ⟨op, found, allowed.2.1, (Option.some.inj taken).symm⟩
  · cases taken

theorem Untorn.shows (untorn : Untorn s) {op : Operation Outgoing}
    (member : op ∈ s.loop.link.writes) : s.shows op.what = frameCells op.what :=
  if_pos (untorn.owning.owns op member)

/-- The oldest unfinished write sends what is due next. -/
theorem Untorn.piece (untorn : Untorn s) {index count : Nat}
    (sending : s.sendPiece index count = some next) (oldest : s.oldest index = true) :
    Untorn next := by
  obtain ⟨op, found, current, rfl⟩ := sendPiece_cases sending
  have member := List.mem_of_getElem? found
  obtain ⟨before, after, same, early, late⟩ := untorn.split member current
  have first : s.started.takeWhile (·.addr != op.what.addr) = before := by
    rw [same, List.takeWhile_append_of_pos (by simpa using early)]
    simp
  have sent : ∀ m ∈ before, s.unsent m = [] := by
    simpa [WireClient.oldest, found, first] using oldest
  refine ⟨untorn.owning, untorn.base, untorn.current, ?_, ?_⟩
  · intro a none
    have different : a ≠ op.what.addr := by
      rintro rfl
      have known := untorn.placed.writes op member
      exact absurd none (Nat.ne_of_gt (refs_pos (f := some) known rfl))
    simpa [advance, different] using untorn.fresh a none
  · have nothing : before.flatMap s.unsent = [] := List.flatMap_eq_nil_iff.mpr sent
    have still : before.flatMap (s.advance op.what count).unsent = [] := by
      refine List.flatMap_eq_nil_iff.mpr fun m known => ?_
      rw [unsent_advance_of_ne (early m known), sent m known]
    have behind : after.flatMap (s.advance op.what count).unsent = after.flatMap s.unsent :=
      List.flatMap_congr fun m known => unsent_advance_of_ne (late m known) count
    have whole := untorn.due
    simp only [WireClient.due, same, List.flatMap_append, List.flatMap_cons, nothing,
      List.nil_append] at whole
    simp only [WireClient.due, started_advance, same, List.flatMap_append, List.flatMap_cons,
      still, behind, unsent_advance, List.nil_append]
    rw [← whole]
    change (s.wire ++ ((s.shows op.what).drop (s.sent op.what.addr)).take count) ++ _ = _
    rw [untorn.shows member]
    change (s.wire ++ (s.unsent op.what).take count) ++ _ = _
    rw [List.append_assoc, ← List.append_assoc (List.take _ _), List.take_append_drop]

theorem Untorn.same {inner : ClientLoop.Event} {after : OwningClient} (untorn : Untorn s)
    (owning : OwningClient.Owning after) (transition : Transition layout s.loop inner after.loop)
    (attempt : after.loop.link.attempt = s.loop.link.attempt) :
    Untorn { s with toOwningClient := after } := by
  have placed := owning.placed
  obtain ⟨new, handed, fresh⟩ : ∃ new : List Outgoing, after.loop.handed = s.loop.handed ++ new ∧
      (∀ m, sends s.loop inner = some m → m ∈ new) ∧ ∀ m ∈ new, s.sent m.addr = 0 := by
    rcases sends_cases transition untorn.placed.early with ⟨quiet, same, _⟩ | ⟨m, _, sent, same, _⟩
    · refine ⟨[], by rw [same, List.append_nil], ?_, fun m member => by cases member⟩
      intro m sending
      cases quiet.symm.trans sending
    · refine ⟨[m], same, fun other sending => ?_, fun other member => ?_⟩
      · cases sent.symm.trans sending
        exact List.mem_cons_self
      · rw [List.mem_singleton.mp member]
        apply untorn.fresh
        have once := placed.distinct m.addr
        simp only [line, same, List.map_append, List.count_append, List.map_cons, List.map_nil,
          List.count_singleton_self] at once
        simp only [refs, List.filterMap_some]
        omega
  have started : WireClient.started { s with toOwningClient := after } = s.started ++ new := by
    simp only [WireClient.started, handed]
    exact List.drop_append_of_le_length untorn.base
  refine ⟨owning, ?_, ?_, ?_, ?_⟩
  · simp only [handed, List.length_append]
    exact Nat.le_trans untorn.base (Nat.le_add_right _ _)
  · intro op member current
    rw [started]
    rcases writes_cases transition op member with ⟨old, known, what, conn⟩ | sending
    · rw [← what]
      apply List.mem_append_left
      exact untorn.current old (otherWrites_subset inner old known)
        (conn.trans (current.trans attempt))
    · exact List.mem_append_right _ (fresh.1 _ sending)
  · intro a none
    apply untorn.fresh
    simp only [handed, refs_append] at none
    omega
  · have whole : new.flatMap s.unsent = new.flatMap frameCells := by
      refine List.flatMap_congr fun m member => ?_
      rw [WireClient.unsent, fresh.2 m member, List.drop_zero]
    have before := untorn.due
    simp only [WireClient.due] at before
    simp only [WireClient.due, started, List.flatMap_append]
    change s.wire ++ (s.started.flatMap s.unsent ++ new.flatMap s.unsent) = _
    rw [whole, ← List.append_assoc, before]

theorem Untorn.reconnected {inner : ClientLoop.Event} {after : OwningClient} (untorn : Untorn s)
    (owning : OwningClient.Owning after) (transition : Transition layout s.loop inner after.loop)
    (attempt : after.loop.link.attempt ≠ s.loop.link.attempt) :
    Untorn { s with toOwningClient := after, base := after.loop.handed.length, wire := [] } := by
  have later := (link_moves transition).attempt_le
  have started : WireClient.started { s with
      toOwningClient := after, base := after.loop.handed.length, wire := [] } = [] := by
    simp [WireClient.started]
  have handed : after.loop.handed = s.loop.handed ∧ sends s.loop inner = none := by
    rcases sends_cases transition untorn.placed.early with
      ⟨quiet, same, _⟩ | ⟨_, _, _, _, _, _, _, link⟩
    · exact ⟨same, quiet⟩
    · rw [link] at attempt
      exact absurd rfl attempt
  refine ⟨owning, Nat.le_refl _, ?_, ?_, ?_⟩
  · intro op member current
    rcases writes_cases transition op member with ⟨old, known, _, conn⟩ | sending
    · have early := untorn.placed.early old (otherWrites_subset inner old known)
      rw [conn, current] at early
      exact absurd (Nat.le_antisymm early later) attempt
    · cases handed.2.symm.trans sending
  · intro a none
    apply untorn.fresh
    simpa only [handed.1] using none
  · simp only [WireClient.due, started]
    rfl

/-- A step of the client is one of its loop, with the callers inside `write`. -/
theorem loop_cases {inner : ClientLoop.Event} (taken : step layout s (.loop inner) = some next) :
    ∃ loop, (ClientLoop.machine layout).step s.loop inner = some loop ∧
      s.toOwningClient.step layout (.loop inner) = some (s.toOwningClient.after inner loop) ∧
      next = s.follow (s.toOwningClient.after inner loop) := by
  simp only [WireClient.step] at taken
  split at taken
  · obtain ⟨after, stepped, rfl⟩ := Option.map_eq_some_iff.mp taken
    have whole := stepped
    simp only [OwningClient.step, Option.bind_eq_bind, Option.bind_eq_some_iff,
      Option.pure_def] at stepped
    obtain ⟨loop, moved, same⟩ := stepped
    cases same
    exact ⟨loop, moved, whole, rfl⟩
  · cases taken

/-- A caller leaves `write`. -/
theorem ret_cases {caller : Nat} (taken : step layout s (.ret caller) = some next) :
    ∃ m, s.returning[caller]? = some m ∧
      s.toOwningClient.step layout (.ret caller) = some next.toOwningClient ∧
      next = { s with returning := s.returning.eraseIdx caller } := by
  obtain ⟨after, stepped, rfl⟩ := Option.map_eq_some_iff.mp taken
  have whole := stepped
  simp only [OwningClient.step, Option.bind_eq_bind, Option.bind_eq_some_iff,
    Option.pure_def] at stepped
  obtain ⟨m, found, same⟩ := stepped
  cases same
  have left : s.follow { loop := s.loop, returning := s.returning.eraseIdx caller } =
      { s with returning := s.returning.eraseIdx caller } := if_pos rfl
  rw [left]
  exact ⟨m, found, whole, rfl⟩

theorem Untorn.step (untorn : Untorn s) (taken : step layout s event = some next)
    (keeps : KeepsFrames s event next) : Untorn next := by
  cases event with
  | loop inner =>
    obtain ⟨loop, moved, stepped, rfl⟩ := loop_cases taken
    have transition := transition_of_step moved
    have owning : OwningClient.Owning (s.toOwningClient.after inner loop) := by
      refine untorn.owning.step stepped ((untorn.owning.owns_iff stepped).mpr ?_)
      exact ⟨keeps.sends, keeps.returns⟩
    unfold follow
    split
    · rename_i attempt
      exact untorn.same owning transition attempt
    · rename_i attempt
      exact untorn.reconnected owning transition attempt
  | ret caller =>
    obtain ⟨m, found, stepped, rfl⟩ := ret_cases taken
    have owning := untorn.owning.step stepped ((untorn.owning.owns_iff stepped).mpr keeps)
    exact ⟨owning, untorn.base, untorn.current, untorn.fresh, untorn.due⟩
  | piece index count => exact untorn.piece taken keeps

/-- Without a queue, a run sends at every moment the beginning of whole frames if
the pieces of overlapping handlers go out in their order, and each caller stays
inside `write` from before its message is sent until that write is handled. -/
theorem neverTorn_of_keepsFrames (layout : IntLayout) (schedule : List Event)
    (keeps : (machine layout).AllSteps KeepsFrames (start .off) schedule) :
    (machine layout).Always NeverTorn (start .off) schedule := by
  apply Machine.always_of_guarded Untorn _ _ (.initial .off) keeps
  · exact fun untorn => untorn.neverTorn
  · exact fun untorn taken guarded => untorn.step taken guarded

instance (s : WireClient) : Decidable (NeverTorn s) :=
  inferInstanceAs (Decidable (s.wire <+: s.started.flatMap frameCells))

instance (s : WireClient) (event : Event) (next : WireClient) :
    Decidable (KeepsFrames s event next) :=
  match event with
  | .loop inner =>
    inferInstanceAs (Decidable (OwningClient.KeepsOwner s.toOwningClient (.loop inner) _))
  | .ret caller =>
    inferInstanceAs (Decidable (OwningClient.KeepsOwner s.toOwningClient (.ret caller) _))
  | .piece index _ => inferInstanceAs (Decidable (s.oldest index = true))

/-- The first of two messages goes out in two pieces before the second one. -/
def oneByOne : List Event := twoWrites.map .loop ++ [.piece 0 5, .piece 0 16, .piece 1 21]

theorem oneByOne_neverTorn :
    ((machine .littleEndian).run (start .off) oneByOne).map (fun s => s.wire.length) = some 42 ∧
      (machine .littleEndian).Always NeverTorn (start .off) oneByOne :=
  ⟨by decide +kernel, neverTorn_of_keepsFrames .littleEndian oneByOne (by decide +kernel)⟩

/-- The second message goes out between two pieces of the first one. -/
def inBetween : List Event := twoWrites.map .loop ++ [.piece 0 5, .piece 1 21]

theorem inBetween_torn : ¬ (machine .littleEndian).Always NeverTorn (start .off) inBetween := by
  intro always
  have outcome : ((machine .littleEndian).run (start .off) inBetween).map
      (fun s => decide (NeverTorn s)) = some false := by
    decide +kernel
  obtain ⟨final, reached, torn⟩ := Option.map_eq_some_iff.mp outcome
  exact of_decide_eq_false torn (always.final reached)

/-- The caller of a message leaves `write` between the two pieces of it. -/
def leftEarly : List Event :=
  (comesUp ++ wholeWrite 7).map .loop ++
    [.loop (.runPosted 0), .piece 0 5, .ret 0, .piece 0 16]

/-- The second piece is of freed memory. -/
theorem leftEarly_torn : ¬ (machine .littleEndian).Always NeverTorn (start .off) leftEarly := by
  intro always
  have outcome : ((machine .littleEndian).run (start .off) leftEarly).map
      (fun s => decide (NeverTorn s)) = some false := by
    decide +kernel
  obtain ⟨final, reached, torn⟩ := Option.map_eq_some_iff.mp outcome
  exact of_decide_eq_false torn (always.final reached)

end WireClient

end RpcLoop
