import RpcLoop.System.Answers
import RpcLoop.System.Flow

/-! How much is left to do on a connection. Every step that delivers some of a
request or a reply lowers it; the steps of readers and timers leave it. -/

namespace RpcLoop

open Foundation Asio Shared

variable {layout : IntLayout} {callFun : Option CallbackFun} {requests asked : List Asked}
  {reads : Nat}

theorem Requesting.sent_le {client : WireClient}
    (requesting : Requesting layout asked requests client) :
    client.wire.length ≤ client.loop.handedBytes := by
  have whole := requesting.untorn.neverTorn
  rw [WireClient.NeverTorn, WireClient.started, requesting.base, List.drop_zero] at whole
  exact whole.length_le

/-- No more arrives than was sent. -/
theorem Received.arrived_le {wire : List Cell} {arrived : Nat} {session : LinkSession}
    (received : Received layout callFun requests wire arrived reads session) :
    arrived ≤ wire.length := by
  obtain ⟨bytes, same, length, _⟩ := received.decodes
  have count := congrArg List.length same
  rw [List.length_take, List.length_map] at count
  omega

theorem LinkSession.input_of_completeRead {session after : LinkSession}
    (taken : session.completeRead layout callFun = some after) :
    ∃ count, count ≤ session.input.length ∧ after.input = session.input.drop count ∧
      (session.reading = .head ∧ count = 12 ∨
        ∃ p length, session.reading = .msg p length ∧ count = length.toNatClampNeg) := by
  unfold LinkSession.completeRead at taken
  split at taken
  · cases taken
  · rename_i reading
    split at taken
    · rename_i enough
      obtain ⟨heap, length, rfl⟩ := LinkSession.handleReadHeader_cases taken
      exact ⟨12, enough, rfl, .inl ⟨reading, rfl⟩⟩
    · cases taken
  · rename_i p length reading
    split at taken
    · rename_i enough
      simp only [Option.bind_eq_bind, Option.bind_eq_some_iff] at taken
      obtain ⟨msg, _, taken⟩ := taken
      obtain ⟨_, _, _, _, _, _, _, _, rfl⟩ := LinkSession.handleReadMsg_cases taken
      exact ⟨length.toNatClampNeg, enough.2, rfl, .inr ⟨p, length, reading, rfl⟩⟩
    · cases taken

theorem Received.shrinks {wire : List Cell} {arrived : Nat} {session after : LinkSession}
    (received : Received layout callFun requests wire arrived reads session)
    (taken : session.completeRead layout callFun = some after) :
    after.input.length < session.input.length := by
  obtain ⟨count, enough, rest, which⟩ := LinkSession.input_of_completeRead taken
  have some : 0 < count := by
    rcases which with ⟨_, rfl⟩ | ⟨p, length, reading, rfl⟩
    · decide
    · obtain ⟨_, _, _, done, current, left, _, decoding⟩ := received.decodes
      have phase := decoding.phase
      cases phase with
      | head other => cases other.symm.trans reading
      | stopped _ other => cases other.symm.trans reading
      | msg r q other old apart buffer =>
      cases other.symm.trans reading
      obtain ⟨ready, _, _, same, size, _⟩ := r.readBuf_eq layout
      cases buffer.symm.trans same
      have eight : 0 < r.payload.length := by simp [Request.payload, metaBytes]
      rw [CInt.toNatClampNeg_eq, size]
      omega
  rw [rest, List.length_drop]
  omega

namespace RpcSystem

open ClientLoop (hands Reading Lasting quiet_of_transition)

/-- What is left of the requests: the client's part, then bytes to send, bytes on
their way and bytes to read. -/
def requestWork (s : RpcSystem) : Nat :=
  s.client.loop.work + 3 * (s.client.loop.handedBytes - s.client.wire.length) +
    2 * (s.client.wire.length - s.arrived) + s.session.input.length

/-- What is left to send of the outstanding reply. -/
def replyLeft (s : RpcSystem) : Nat :=
  match s.session.writing, s.progress with
  | [p], [count] => ((s.session.heap p).frame.toOption.getD []).length - count
  | _, _ => 0

def readWork (op : Operation Receive) : Nat := if op.state = .done then 1 else 0

/-- What is left of the replies that were queued. -/
def replyWork (s : RpcSystem) : Nat :=
  3 * s.replyLeft + s.session.writing.length + 2 * s.toClient.length +
    (s.client.loop.link.reads.map readWork).sum

/-- The steps of a client that move a request or a reply on. -/
def forwards : ClientLoop.Event → Bool
  | .handleRead _ _ => true
  | event => hands event

/-- The steps that deliver something. -/
def Delivers (s : RpcSystem) (event : Event) (next : RpcSystem) : Prop :=
  LockStep s event next ∧
    match event with
    | .write _ | .ret _ => False
    | .client inner => forwards inner = true
    | .arrive _ => s.arrived < next.arrived
    | _ => True

/-- The steps that deliver nothing: those of readers and timers, the return of a
caller, and the arrival of no bytes. -/
def Rests (s : RpcSystem) (event : Event) (next : RpcSystem) : Prop :=
  LockStep s event next ∧
    match event with
    | .client inner => forwards inner = false
    | .arrive _ => next.arrived = s.arrived
    | .ret _ => True
    | _ => False

variable {layout : IntLayout} {callFun : Option CallbackFun} {memory : Memory}
  {requests : List Asked} {reads : Nat} {replies taken left : List Reply} {stage : Stage}
  {sent : List UInt8} {s next : RpcSystem} {event : Event}

theorem Delivers.writes (delivers : Delivers s event next) : event.writes = 0 := by
  cases event with
  | write => exact delivers.2.elim
  | _ => rfl

theorem Rests.writes (rests : Rests s event next) : event.writes = 0 := by
  cases event with
  | write => exact rests.2.elim
  | _ => rfl

private theorem replyLeft_idle (idle : s.session.writing = []) : s.replyLeft = 0 := by
  simp [replyLeft, idle]

theorem Returning.lowers (returning : Returning layout memory s replies sent)
    {index count done : Nat} {bytes : List UInt8} (sends : s.replyBytes memory index = some bytes)
    (stands : s.progress[index]? = some done) (inside : done + count ≤ bytes.length)
    (toClient : List UInt8) :
    ({ s with
      progress := s.progress.set index (done + count)
      toClient := toClient } : RpcSystem).replyLeft + count = s.replyLeft := by
  cases returning with
  | idle replies queue writing progress => simp [progress] at stands
  | busy earlier reply p cells before queue writing progress old frame shows within =>
    have zero : index = 0 := by
      have bound := (List.getElem?_eq_some_iff.mp stands).1
      rw [progress, List.length_singleton] at bound
      omega
    subst zero
    have same : done = before := by simpa [progress] using stands.symm
    subst same
    have whole : bytes.length = cells.length := by
      simp only [replyBytes, writing, queue, List.getElem?_cons_zero, List.mem_singleton, if_true,
        frame, Except.toOption, Option.bind_eq_bind, Option.bind_some, Option.pure_def,
        Option.some.injEq] at sends
      rw [← sends, length_shown]
    simp only [replyLeft, writing, progress, List.set_cons_zero, frame, Except.toOption,
      Option.getD_some]
    omega

theorem Returning.ends (returning : Returning layout memory s replies sent) {index : Nat}
    {session : LinkSession}
    (transition : LinkSession.Transition s.session (.writeOk index) session) :
    session.writing = [] ∧ session.input = s.session.input ∧ s.session.writing.length = 1 := by
  cases transition with
  | written _ inside front rest split heap =>
    cases returning with
    | idle replies queue writing progress => cases queue.symm.trans split
    | busy earlier reply p cells count queue writing progress =>
      cases queue.symm.trans split
      have zero : index = 0 := by
        rw [writing, List.length_singleton] at inside
        omega
      simp [writing, zero]

private theorem readWork_handled {loop after : ClientLoop} {index : Nat}
    (reading : Reading layout loop stage)
    (lasts : Lasting loop)
    (transition : ClientLoop.Transition layout loop (.handleRead index false) after) :
    (after.link.reads.map readWork).sum < (loop.link.reads.map readWork).sum := by
  have less : ∀ {op : Operation Receive} {what : Receive} {link : Link},
      loop.link.reads[index]? = some op → op.state = .done →
      (loop.endRead index).asyncRead what = some link →
        (link.reads.map readWork).sum < (loop.link.reads.map readWork).sum := by
    intro op what link start done again
    obtain ⟨rfl, alone, _, _⟩ := reading.only start
    rw [ClientLoop.read_follows lasts.opened again, alone]
    simp [readWork, done]
  cases transition with
  | readClosed _ error op start delivers closed => cases lasts.opened.symm.trans closed
  | headKnown _ op head p known readMsg link start done opened kind present headed buffer again =>
    exact less start done again
  | headUnknown _ op head readMsg link start done opened kind unknown buffer again =>
    exact less start done again
  | msgOk _ op p length readMsg link start done opened kind body again =>
    exact less start done again

private theorem readWork_received {loop after : ClientLoop} {index : Nat} {bytes : List UInt8}
    {op : Operation Receive} (reading : Reading layout loop stage)
    (start : loop.link.reads[index]? = some op)
    (transition : ClientLoop.Transition layout loop (.received index bytes) after) :
    0 < ClientLoop.wanted op.what ∧
      (after.link.reads.map readWork).sum ≤ (loop.link.reads.map readWork).sum + 1 := by
  obtain ⟨_, _, _, stands⟩ := reading.only start
  cases transition with
  | receivedHead _ read t _ found live up kind length =>
    cases found.symm.trans start
    have reads := sum_set readWork start
      { op with what := .head (.ofData layout bytes), state := .done }
    refine ⟨?_, ?_⟩
    · rw [kind]
      exact Nat.succ_pos 11
    · have one : readWork { op with
          what := .head (.ofData layout bytes), state := .done } = 1 := rfl
      dsimp only
      omega
  | receivedMsg _ read p wide _ filled found live up kind copied =>
    cases found.symm.trans start
    have reads := sum_set readWork start { op with state := .done }
    refine ⟨?_, ?_⟩
    · cases stands with
      | awaiting t conn => cases kind
      | headed r conn => cases live
      | filled r q length conn => cases live
      | filling r q length conn target expects wide =>
        rw [wide, expects.asked, r.length_payload]
        omega
    · have one : readWork { op with state := .done } = 1 := rfl
      dsimp only
      omega

/-- A connection on which everything that was handed over gets on. -/
structure Moving (layout : IntLayout) (callFun : Option CallbackFun)
    (memory : Memory) (s : RpcSystem) : Prop where
  delivering : ∃ requests reads taken stage left,
    Delivering layout callFun memory requests reads taken stage left s
  flowing : WireClient.Flowing s.client
  bound : OwningClient.HoldsBound s.client.toOwningClient
  going : s.session.reading ≠ .stopped

theorem Moving.initial (layout : IntLayout) (callFun : Option CallbackFun)
    (memory : Memory) (csq : ClientSendQueue) :
    Moving layout callFun memory (start csq) where
  delivering := ⟨[], 0, [], .between, [], .initial layout callFun memory csq⟩
  flowing := .initial csq
  bound := .initial csq
  going := by simp [start, LinkSession.start]

private theorem flowing_loop {client after : WireClient} {inner : ClientLoop.Event}
    {asked : List Asked}
    (flowing : WireClient.Flowing client) (bound : OwningClient.HoldsBound client.toOwningClient)
    (requesting : Requesting layout asked requests client)
    (stepped : client.step layout (.loop inner) = some after) (whole : breaks inner = false) :
    WireClient.Flowing after ∧ OwningClient.HoldsBound after.toOwningClient := by
  have may : client.mayHappen inner = true := by
    simp only [WireClient.step] at stepped
    split at stepped
    · assumption
    · cases stepped
  have lasts := requesting.lasts
  obtain ⟨loop, transition, _, rfl⟩ := Requesting.follow lasts stepped whole
  exact ⟨flowing.loop requesting.untorn.placed lasts transition whole may, bound.after transition⟩

private theorem going_step {session after : LinkSession} {inner : LinkSession.Event}
    (going : session.reading ≠ .stopped) (succeeds : inner ≠ .readError)
    (stepped : (LinkSession.machine layout callFun).step session inner = some after) :
    after.reading ≠ .stopped := by
  cases LinkSession.transition_of_step stepped with
  | readFailed => exact absurd rfl succeeds
  | header => simp
  | request => simp
  | _ => exact going

theorem Moving.step (moving : Moving layout callFun memory s) (results : ResultsSound callFun)
    (transition : Transition layout callFun memory s event next) (guarded : LockStep s event next)
    (few : s.asked.length < 2 ^ 32) : Moving layout callFun memory next := by
  obtain ⟨_, _, _, _, _, delivering⟩ := moving.delivering
  have requesting := delivering.answering.serving.requesting
  obtain ⟨flowing, bound⟩ : WireClient.Flowing next.client ∧
      OwningClient.HoldsBound next.client.toOwningClient := by
    cases transition with
    | wrote request client id stepped =>
      exact flowing_loop moving.flowing moving.bound requesting stepped rfl
    | left caller client stepped =>
      obtain ⟨m, found, _, rfl⟩ := WireClient.ret_cases stepped
      exact ⟨moving.flowing.ret caller, moving.bound.ret guarded.2⟩
    | moved inner client allowed stepped =>
      exact flowing_loop moving.flowing moving.bound requesting stepped (breaks_of_lasting allowed)
    | requestSent index count client stepped =>
      refine ⟨moving.flowing.piece stepped, ?_⟩
      obtain ⟨op, _, _, rfl⟩ := WireClient.sendPiece_cases stepped
      exact moving.bound
    | received index op client start enough stepped =>
      exact flowing_loop moving.flowing moving.bound requesting stepped rfl
    | _ => exact ⟨moving.flowing, moving.bound⟩
  refine ⟨delivering.step results transition guarded few, flowing, bound, ?_⟩
  · cases transition with
    | arrived count bytes session found stepped =>
      exact going_step moving.going (by simp) stepped
    | read session stepped => exact going_step moving.going (by simp) stepped
    | written index bytes session sends all stepped =>
      exact going_step moving.going (by simp) stepped
    | _ => exact moving.going

/-- A step of the client's loop leaves what is left of the requests, or lowers it. -/
theorem requestWork_loop (next : RpcSystem) {inner : ClientLoop.Event}
    (before : Requesting layout s.asked requests s.client)
    (stepped : s.client.step layout (.loop inner) = some next.client)
    (keeps : WireClient.KeepsFrames s.client (.loop inner) next.client)
    (whole : breaks inner = false) (idle : ∀ msg msgL, inner ≠ .beginWrite msg msgL)
    (arrived : next.arrived = s.arrived) (session : next.session = s.session) :
    hands inner = false ∧ next.requestWork = s.requestWork ∨
      hands inner = true ∧ next.requestWork < s.requestWork := by
  obtain ⟨_, after, wire⟩ := before.loop stepped keeps whole idle
  obtain ⟨loop, transition, _, same⟩ := Requesting.follow before.lasts stepped whole
  have sent := before.sent_le
  have still := after.sent_le
  rw [wire] at still
  rw [same] at still wire
  simp only [requestWork, arrived, session, same, OwningClient.after_loop] at wire ⊢
  rcases ClientLoop.work_step before.lasts transition whole idle with
    ⟨quiet, work, bytes⟩ | ⟨loud, less⟩
  · left
    refine ⟨quiet, ?_⟩
    rw [work, bytes]
  · right
    refine ⟨loud, ?_⟩
    simp only [OwningClient.after_loop] at still
    omega

/-- Every delivery lowers what is left of the requests, or leaves that and lowers
what is left of the replies. -/
theorem Moving.lowers (moving : Moving layout callFun memory s) (results : ResultsSound callFun)
    (transition : Transition layout callFun memory s event next)
    (delivers : Delivers s event next) (few : s.asked.length < 2 ^ 32) :
    next.requestWork < s.requestWork ∨
      next.requestWork = s.requestWork ∧ next.replyWork < s.replyWork := by
  obtain ⟨requests, reads, taken, stage, left, delivering⟩ := moving.delivering
  have serving := delivering.answering.serving
  have requesting := serving.requesting
  have returning := delivering.answering.returning
  obtain ⟨_, _, _, _, _, later⟩ := delivering.step results transition delivers.1 few
  have arrivedLater := later.answering.serving.received.arrived_le
  have sentLater := later.answering.serving.requesting.sent_le
  have arrived := serving.received.arrived_le
  cases transition with
  | wrote request client id stepped => exact delivers.2.elim
  | moved inner client allowed stepped =>
    have whole := breaks_of_lasting allowed
    rcases requestWork_loop { s with client := client } requesting stepped delivers.1 whole
      (fun _ _ begins => by cases begins; cases allowed) rfl rfl with ⟨quiet, same⟩ | ⟨_, less⟩
    · have moves : forwards inner = true := delivers.2
      cases inner with
      | handleRead index error =>
        cases whole
        obtain ⟨after, transition, _, rfl⟩ := Requesting.follow requesting.lasts stepped rfl
        have fewer := readWork_handled delivering.reading requesting.lasts transition
        refine .inr ⟨same, ?_⟩
        simp only [replyWork, replyLeft, OwningClient.after_loop] at fewer ⊢
        omega
      | _ => cases quiet.symm.trans moves
    · exact .inl less
  | left caller client stepped => exact delivers.2.elim
  | requestSent index count client stepped =>
    obtain ⟨loop, positive, wire⟩ := WireClient.length_piece stepped
    left
    simp only [loop, wire] at sentLater arrivedLater
    simp only [requestWork, loop, wire]
    omega
  | arrived count bytes session found stepped =>
    cases stepped
    have some : s.arrived < s.arrived + bytes.length := delivers.2
    left
    simp only [requestWork, List.length_append] at arrivedLater ⊢
    omega
  | read session stepped =>
    have shrinks := serving.received.shrinks stepped
    left
    simp only [requestWork, withSession]
    omega
  | written index bytes session sends all stepped =>
    obtain ⟨writing, input, one⟩ := returning.ends (LinkSession.transition_of_step stepped)
    right
    refine ⟨by simp only [requestWork, withSession, input], ?_⟩
    have none := replyLeft_idle (s := s.withSession session (s.progress.eraseIdx index)) writing
    simp only [replyWork, none]
    simp only [withSession, writing, one, List.length_nil]
    omega
  | replySent index count done bytes sends stands positive inside =>
    right
    refine ⟨rfl, ?_⟩
    have fewer := returning.lowers sends stands inside
      (s.toClient ++ (bytes.drop done).take count)
    have length : ((bytes.drop done).take count).length = count := by
      rw [List.length_take, List.length_drop]
      omega
    simp only [replyWork, List.length_append, length]
    omega
  | received index op client start enough stepped =>
    right
    rcases requestWork_loop { s with
        client := client
        toClient := s.toClient.drop (ClientLoop.wanted op.what) } requesting stepped
      (WireClient.keepsFrames_of_quiet rfl) rfl (by simp) rfl rfl with ⟨_, same⟩ | ⟨loud, _⟩
    · obtain ⟨after, transition, _, rfl⟩ := Requesting.follow requesting.lasts stepped rfl
      obtain ⟨some, more⟩ := readWork_received delivering.reading start transition
      refine ⟨same, ?_⟩
      simp only [replyWork, replyLeft, List.length_drop, OwningClient.after_loop] at more ⊢
      omega
    · cases loud

/-- Any other step leaves both. -/
theorem Moving.leaves (moving : Moving layout callFun memory s)
    (transition : Transition layout callFun memory s event next) (rests : Rests s event next) :
    next.requestWork = s.requestWork ∧ next.replyWork = s.replyWork := by
  obtain ⟨_, _, _, _, _, delivering⟩ := moving.delivering
  have requesting := delivering.answering.serving.requesting
  cases transition with
  | moved inner client allowed stepped =>
    have whole := breaks_of_lasting allowed
    have still : forwards inner = false := rests.2
    have apart : hands inner = false := by
      cases inner with
      | handleRead => rfl
      | _ => exact still
    rcases requestWork_loop { s with client := client } requesting stepped rests.1 whole
      (fun _ _ begins => by cases begins; cases allowed) rfl rfl with ⟨_, same⟩ | ⟨loud, _⟩
    · obtain ⟨after, transition, _, rfl⟩ := Requesting.follow requesting.lasts stepped whole
      have quiet := quiet_of_transition requesting.lasts transition whole (by
        cases inner with
        | handleConnect => cases still
        | handleRead => cases still
        | received => cases allowed
        | _ => trivial)
      refine ⟨same, ?_⟩
      simp only [replyWork, replyLeft, OwningClient.after_loop, quiet.reads]
    · cases apart.symm.trans loud
  | left caller client stepped =>
    obtain ⟨_, _, _, rfl⟩ := WireClient.ret_cases stepped
    exact ⟨rfl, rfl⟩
  | arrived count bytes session found stepped =>
    have none : s.arrived + bytes.length = s.arrived := rests.2
    have nothing : bytes = [] := List.length_eq_zero_iff.mp (by omega)
    subst nothing
    cases stepped
    simp [requestWork, replyWork, replyLeft]
  | _ => exact rests.2.elim

end RpcSystem

end RpcLoop
