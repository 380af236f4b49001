import RpcLoop.Client.Request
import RpcLoop.Server.Delivery
import RpcLoop.Server.Transition

/-! The client's encoder and the server's read loop are inverse to each other
over a whole stream of requests. -/

namespace RpcLoop

open Foundation

/-- What a message says, as the accessors of the two ends read it. -/
structure Content where
  reqId : Int32
  bodyLen : Int32
  metaCells : List Cell
  bodyCells : List Cell

def RpcStruct.content (m : RpcStruct) : Content where
  reqId := m.headInfo.reqId
  bodyLen := m.headInfo.bodyLen
  metaCells := m.cells m.metaOffset m.headInfo.metaLen
  bodyCells := m.cells m.bodyOffset m.headInfo.bodyLen

namespace Request

def content (r : Request) : Content where
  reqId := r.reqId
  bodyLen := r.bodyLen
  metaCells := metaBytes.map some
  bodyCells := r.body.map some

/-- The part of a frame that is read after its header. -/
def payload (r : Request) : List UInt8 := metaBytes ++ r.body

def frame (layout : IntLayout) (r : Request) : List UInt8 := r.head.data layout ++ r.payload

private theorem mapM_encode (layout : IntLayout) (requests : List Request) :
    requests.mapM (encode layout) = some (requests.map (frame layout)) := by
  induction requests with
  | nil => rfl
  | cons r rest ih =>
    simp only [List.mapM_cons, r.encode_eq layout, ih, List.map_cons, frame, payload,
      List.append_assoc, Option.pure_def, Option.bind_eq_bind, Option.bind_some]

private theorem content_filled {layout : IntLayout} {m : RpcStruct} {block : Block} {r : Request}
    (head : m.headInfo = r.head)
    (filled : RpcStruct.Filled layout m block (metaBytes.map some) (r.body.map some)) :
    m.content = r.content := by
  obtain ⟨metaCells, bodyCells⟩ := filled.cells
  rw [RpcStruct.content, metaCells, bodyCells, head]
  rfl

/-- The receive buffer the server makes for the header of a request. -/
theorem readBuf_eq (layout : IntLayout) (r : Request) :
    ∃ ready next block, (RpcStruct.ofHead r.head).recvMsgBuff layout = .ok ready ∧
      ready.recvMsgLen.toInt = r.payload.length ∧
      ready.receive r.payload ready.recvMsgLen = .ok next ∧ next.headInfo = r.head ∧
      RpcStruct.Filled layout next block (metaBytes.map some) (r.body.map some) := by
  have length := r.toInt_bodyLen
  have fits := r.fits
  have head : r.head.bodyLen = r.bodyLen := rfl
  have eight : r.head.metaLen.toInt = 8 := rfl
  have filled := RpcStruct.receive_eq layout r.head r.payload
    (by rw [eight]; decide) (by rw [head]; omega) (by rw [eight, head]; omega)
    (by simp only [eight, head, length, payload, metaBytes, List.length_append, List.length_cons,
          List.length_nil]
        omega)
  exact filled

end Request

namespace LinkSession

/-- The bytes a schedule brings to the session. -/
def arrivals (schedule : List Event) : List UInt8 :=
  schedule.flatMap fun event =>
    match event with
    | .arrive bytes => bytes
    | _ => []

/-- Where the read loop stands: between two frames, or behind a header it has
allocated the buffer for. -/
inductive Phase (layout : IntLayout) (s : LinkSession) : Option Request → Prop where
  | head (reading : s.reading = .head) : Phase layout s none
  | msg (r : Request) (p : Ptr) (reading : s.reading = .msg p (s.heap p).recvMsgLen)
      (old : p < s.allocated) (apart : p ∉ s.writeMsgs)
      (buffer : (RpcStruct.ofHead r.head).recvMsgBuff layout = .ok (s.heap p)) :
      Phase layout s (some r)
  | stopped (current : Option Request) (reading : s.reading = .stopped) : Phase layout s current

/-- The requests are split into those handled, the one being read and those to come. -/
structure Decoding (layout : IntLayout) (callFun : Option CallbackFun) (arrived : List UInt8)
    (reads : Nat) (s : LinkSession) (done : List Request) (current : Option Request) : Prop where
  queued : Queued layout s
  unlost : s.lost = false
  reads : reads = 2 * done.length + current.toList.length
  handled : s.handled.map RpcStruct.content = done.map Request.content
  calls : s.calls = done.flatMap fun r => callsFor callFun (r.body.map some) r.bodyLen
  position : arrived = (done.map (Request.frame layout)).flatten ++
    (current.toList.map fun r => r.head.data layout).flatten ++ s.input
  phase : Phase layout s current

variable {layout : IntLayout} {callFun : Option CallbackFun} {s next : LinkSession}
  {arrived : List UInt8} {reads : Nat} {done left : List Request} {current : Option Request}
  {event : Event}

theorem Decoding.initial : Decoding layout callFun [] 0 start [] none where
  queued := ⟨(fun _ member => by cases member), (fun _ member => by cases member)⟩
  unlost := rfl
  reads := rfl
  handled := rfl
  calls := rfl
  position := rfl
  phase := .head rfl

theorem Decoding.readHeader {r : Request}
    (decoding : Decoding layout callFun arrived reads s done none)
    (reading : s.reading = .head) (available : r.head.data layout <+: s.input) :
    ∃ next, s.completeRead layout callFun = some next ∧
      Decoding layout callFun arrived (reads + 1) next done (some r) := by
  obtain ⟨rest, input⟩ := available
  obtain ⟨ready, _, _, buffer, _⟩ := r.readBuf_eq layout
  have kept := decoding.queued.alloc ready
  refine ⟨_, completeRead_head reading input.symm buffer, ⟨kept.sendable, kept.old⟩,
    decoding.unlost, ?_, decoding.handled, decoding.calls, ?_, ?_⟩
  · simp [decoding.reads]
  · rw [decoding.position, ← input]
    simp [alloc]
  · have stored : (s.alloc ready).heap s.allocated = ready := by simp [alloc]
    refine .msg r s.allocated ?_ (Nat.lt_succ_self _) ?_ ?_
    · simp [alloc]
    · intro member
      exact Nat.lt_irrefl _ (decoding.queued.old _ member)
    · rw [buffer]
      exact congrArg _ stored.symm

theorem Decoding.readMsg {r : Request}
    (decoding : Decoding layout callFun arrived reads s done (some r))
    (results : ResultsFit callFun) (going : s.reading ≠ .stopped)
    (available : r.payload <+: s.input) :
    ∃ next, s.completeRead layout callFun = some next ∧
      Decoding layout callFun arrived (reads + 1) next (done ++ [r]) none := by
  obtain ⟨rest, input⟩ := available
  cases decoding.phase with
  | stopped _ reading => exact False.elim (going reading)
  | msg _ p reading old apart buffer =>
  obtain ⟨ready, filledMsg, block, same, length, received, head, filled⟩ := r.readBuf_eq layout
  cases buffer.symm.trans same
  have stored : (s.store p filledMsg).heap p = filledMsg := by simp [store]
  have queue : Queued layout { s.store p filledMsg with input := rest } := by
    have kept := decoding.queued.store (p := p) (m := filledMsg) ⟨_, _, _, filled⟩
    exact ⟨kept.sendable, kept.old⟩
  obtain ⟨next, fresh, step, kept, unlost, again, position, complete, handled, calls⟩ :=
    queue.handleReadMsg results (p := p) decoding.unlost old (by rw [stored]; exact filled)
  refine ⟨next, ?_, kept, unlost, ?_, ?_, ?_, ?_, .head again⟩
  · exact (completeRead_msg reading input.symm length received).trans step
  · simp [decoding.reads]
    omega
  · rw [stored] at complete handled
    have said := Request.content_filled (m := { filledMsg with data := some fresh }) head complete
    rw [handled, List.map_append, List.map_append, ← decoding.handled, List.map_singleton, said]
    rfl
  · rw [stored, head] at calls
    rw [calls, List.flatMap_append, ← decoding.calls, List.flatMap_singleton]
    rfl
  · rw [decoding.position, ← input, position]
    simp [Request.frame]

theorem Phase.keep (phase : Phase layout s current) (reading : next.reading = s.reading)
    (allocated : next.allocated = s.allocated)
    (heap : ∀ p, p ∉ s.writeMsgs → next.heap p = s.heap p)
    (queue : ∀ p ∈ next.writeMsgs, p ∈ s.writeMsgs) : Phase layout next current := by
  cases phase with
  | head same => exact .head (reading.trans same)
  | msg r p same old apart buffer =>
    have kept := heap p apart
    refine .msg r p ?_ ?_ ?_ ?_
    · rw [reading, same, kept]
    · rw [allocated]
      exact old
    · exact fun member => apart (queue p member)
    · rw [kept]
      exact buffer
  | stopped _ same => exact .stopped _ (reading.trans same)

/-- The bytes not yet consumed belong to the requests not yet decoded. -/
theorem Decoding.unread (decoding : Decoding layout callFun arrived reads s done current)
    (sent : arrived <+: ((done ++ current.toList ++ left).map (Request.frame layout)).flatten) :
    s.input <+: (current.toList.map Request.payload).flatten ++
      (left.map (Request.frame layout)).flatten := by
  rw [decoding.position] at sent
  cases current with
  | none => simpa [List.append_assoc] using sent
  | some r => simpa [List.append_assoc, Request.frame] using sent

theorem Decoding.read (decoding : Decoding layout callFun arrived reads s done current)
    (results : ResultsFit callFun)
    (sent : arrived <+: ((done ++ current.toList ++ left).map (Request.frame layout)).flatten)
    (taken : s.completeRead layout callFun = some next) :
    ∃ after active rest, done ++ current.toList ++ left = after ++ active.toList ++ rest ∧
      Decoding layout callFun arrived (reads + 1) next after active := by
  have unread := decoding.unread sent
  cases phase : s.reading with
  | stopped => simp [completeRead, phase] at taken
  | head =>
    cases decoding.phase with
    | stopped _ reading => rw [reading] at phase; cases phase
    | msg _ _ reading => rw [reading] at phase; cases phase
    | head _ =>
    have long : 12 ≤ s.input.length := by
      apply Classical.byContradiction
      intro short
      simp [completeRead, phase, short] at taken
    cases left with
    | nil =>
      have empty : s.input = [] := by simpa using unread
      simp [empty] at long
    | cons r rest =>
      have header : r.head.data layout <+: s.input := by
        apply List.prefix_of_prefix_length_le _ unread
        · simpa using long
        · simp [Request.frame, List.append_assoc]
      obtain ⟨after, step, kept⟩ := decoding.readHeader phase header
      cases step.symm.trans taken
      exact ⟨done, some r, rest, by simp, kept⟩
  | msg p length =>
    cases decoding.phase with
    | stopped _ reading => rw [reading] at phase; cases phase
    | head reading => rw [reading] at phase; cases phase
    | msg r q reading old apart buffer =>
    have going : s.reading ≠ .stopped := by simp [phase]
    obtain ⟨ready, _, _, same, size, _⟩ := r.readBuf_eq layout
    cases buffer.symm.trans same
    have long : r.payload.length ≤ s.input.length := by
      apply Classical.byContradiction
      intro short
      have count : (s.heap q).recvMsgLen.toNatClampNeg = r.payload.length := by
        rw [CInt.toNatClampNeg_eq]
        omega
      simp [completeRead, reading, count, short] at taken
    have payload : r.payload <+: s.input := by
      apply List.prefix_of_prefix_length_le _ unread long
      simp
    obtain ⟨after, step, kept⟩ := decoding.readMsg results going payload
    cases step.symm.trans taken
    exact ⟨done ++ [r], none, left, by simp, kept⟩

/-- Once the bytes of every request are there, each read completes. -/
theorem Decoding.continues (decoding : Decoding layout callFun arrived reads s done current)
    (results : ResultsFit callFun)
    (sent : arrived = ((done ++ current.toList ++ left).map (Request.frame layout)).flatten)
    (going : s.reading ≠ .stopped) (more : current.toList ++ left ≠ []) :
    ∃ next, s.completeRead layout callFun = some next := by
  have unread : s.input = (current.toList.map Request.payload).flatten ++
      (left.map (Request.frame layout)).flatten := by
    have position := decoding.position.symm.trans sent
    cases current with
    | none => simpa [List.append_assoc] using position
    | some r => simpa [List.append_assoc, Request.frame] using position
  cases decoding.phase with
  | stopped _ reading => exact False.elim (going reading)
  | head reading =>
    cases left with
    | nil => exact False.elim (more rfl)
    | cons r rest =>
      have header : r.head.data layout <+: s.input := by
        simp [unread, Request.frame, List.append_assoc]
      obtain ⟨next, step, _⟩ := decoding.readHeader reading header
      exact ⟨next, step⟩
  | msg r _ _ _ _ _ =>
    obtain ⟨next, step, _⟩ := decoding.readMsg results going (by simp [unread])
    exact ⟨next, step⟩

theorem Decoding.keep (decoding : Decoding layout callFun arrived reads s done current)
    (queued : Queued layout next) (lost : next.lost = s.lost) (input : next.input = s.input)
    (handled : next.handled = s.handled)
    (calls : next.calls = s.calls) (phase : Phase layout next current) :
    Decoding layout callFun arrived reads next done current where
  queued := queued
  unlost := lost.trans decoding.unlost
  reads := decoding.reads
  handled := by
    rw [handled]
    exact decoding.handled
  calls := calls.trans decoding.calls
  position := by
    rw [input]
    exact decoding.position
  phase := phase

/-- The read loop is somewhere in the list of requests. -/
def Decodes (layout : IntLayout) (callFun : Option CallbackFun) (requests : List Request)
    (arrived : List UInt8) (reads : Nat) (s : LinkSession) : Prop :=
  ∃ done current left, requests = done ++ current.toList ++ left ∧
    Decoding layout callFun arrived reads s done current

/-- One event: bytes may arrive, a read may advance the loop, writes leave it alone. -/
theorem Decodes.step {requests : List Request} (results : ResultsFit callFun)
    (decodes : Decodes layout callFun requests arrived reads s)
    (sent : arrived <+: (requests.map (Request.frame layout)).flatten)
    (taken : (machine layout callFun).step s event = some next) :
    Decodes layout callFun requests (arrived ++ arrivals [event])
      (reads + [event].count .readOk) next := by
  obtain ⟨done, current, left, rfl, decoding⟩ := decodes
  change LinkSession.step layout callFun s event = some next at taken
  cases event with
  | arrive bytes =>
    cases taken
    refine ⟨done, current, left, rfl, ⟨decoding.queued.sendable, decoding.queued.old⟩,
      decoding.unlost, decoding.reads, decoding.handled, decoding.calls, ?_,
      decoding.phase.keep rfl rfl (fun _ _ => rfl) (fun _ member => member)⟩
    simp [decoding.position, arrivals]
  | readOk =>
    obtain ⟨after, active, rest, same, kept⟩ := decoding.read results sent taken
    refine ⟨after, active, rest, same, ?_⟩
    simpa [arrivals] using kept
  | readError =>
    simp only [LinkSession.step] at taken
    split at taken
    · cases taken
    · cases taken
      have kept : Decoding layout callFun _ _ { s with reading := .stopped } _ _ := decoding.keep
        ⟨decoding.queued.sendable, decoding.queued.old⟩ rfl rfl rfl rfl (.stopped _ rfl)
      exact ⟨done, current, left, rfl, by simpa [arrivals] using kept⟩
  | writeOk index =>
    simp only [LinkSession.step] at taken
    split at taken
    · have queued : Queued layout { s with writing := s.writing.eraseIdx index } :=
        ⟨decoding.queued.sendable, decoding.queued.old⟩
      obtain ⟨rest, same, calls, allocated, heap, queue⟩ := queued.handleWrite taken
      have kept := decoding.keep rest same.lost same.input same.handled calls
        (decoding.phase.keep same.reading allocated heap queue)
      exact ⟨done, current, left, rfl, by simpa [arrivals] using kept⟩
    · cases taken
  | writeError index =>
    simp only [LinkSession.step] at taken
    split at taken
    · cases taken
      have kept : Decoding layout callFun _ _ { s with writing := s.writing.eraseIdx index } _ _ :=
        decoding.keep
        ⟨decoding.queued.sendable, decoding.queued.old⟩ rfl rfl rfl rfl
        (decoding.phase.keep rfl rfl (fun _ _ => rfl) (fun _ member => member))
      exact ⟨done, current, left, rfl, by simpa [arrivals] using kept⟩
    · cases taken

/-- Every run that receives a beginning of the encoded requests decodes them. -/
theorem decodes_of_run (requests : List Request) (results : ResultsFit callFun)
    {schedule : List Event} (reached : (machine layout callFun).run start schedule = some s)
    (sent : arrivals schedule <+: (requests.map (Request.frame layout)).flatten) :
    Decodes layout callFun requests (arrivals schedule) (schedule.count .readOk) s := by
  induction schedule using List.reverseRecOn generalizing s with
  | nil =>
    cases Option.some.inj reached
    exact ⟨[], none, requests, rfl, .initial⟩
  | append_singleton earlier event ih =>
    obtain ⟨middle, before, taken⟩ := Machine.run_concat_eq_some.mp reached
    have split : arrivals (earlier ++ [event]) = arrivals earlier ++ arrivals [event] := by
      simp [arrivals]
    rw [split] at sent ⊢
    have shorter := (List.prefix_append _ _).trans sent
    rw [List.count_append]
    exact (ih before shorter).step results shorter taken

/-- The read loop on a stream of encoded requests: what it has decoded, where in
the stream it stands, and that it goes on to the end. -/
structure RoundTrip (layout : IntLayout) (callFun : Option CallbackFun) (requests : List Request)
    (frames : List (List UInt8)) : Prop where
  decoded : ∀ schedule s count, (machine layout callFun).run start schedule = some s →
    arrivals schedule <+: frames.flatten → schedule.count .readOk = 2 * count →
      s.handled.map RpcStruct.content = (requests.take count).map Request.content ∧
      s.calls = (requests.take count).flatMap fun r =>
        callsFor callFun (r.body.map some) r.bodyLen
  aligned : ∀ schedule s count, (machine layout callFun).run start schedule = some s →
    arrivals schedule <+: frames.flatten → schedule.count .readOk = 2 * count →
      count ≤ requests.length ∧ arrivals schedule = (frames.take count).flatten ++ s.input
  continues : ∀ schedule s, (machine layout callFun).run start schedule = some s →
    arrivals schedule = frames.flatten → .readError ∉ schedule →
      schedule.count .readOk < 2 * requests.length →
        ∃ next, (machine layout callFun).step s .readOk = some next
  completes : ∀ count ≤ requests.length, ∃ s, (machine layout callFun).run start
    (.arrive frames.flatten :: List.replicate (2 * count) .readOk) = some s

theorem Decodes.between {requests : List Request} {count : Nat}
    (decodes : Decodes layout callFun requests arrived (2 * count) s) :
    ∃ left, requests = requests.take count ++ left ∧ count ≤ requests.length ∧
      Decoding layout callFun arrived (2 * count) s (requests.take count) none := by
  obtain ⟨done, current, left, rfl, decoding⟩ := decodes
  have reads := decoding.reads
  cases current with
  | some r =>
    simp only [Option.toList_some, List.length_singleton] at reads
    omega
  | none =>
    simp only [Option.toList_none, List.length_nil] at reads
    have length : count = done.length := by omega
    subst length
    refine ⟨left, ?_, ?_, ?_⟩
    · simp
    · simp
    · simpa using decoding

private theorem stopped_of_run {schedule : List Event}
    (reached : (machine layout callFun).run start schedule = some s)
    (stopped : s.reading = .stopped) : .readError ∈ schedule := by
  induction schedule using List.reverseRecOn generalizing s with
  | nil =>
    cases Option.some.inj reached
    cases stopped
  | append_singleton earlier event ih =>
    obtain ⟨middle, before, taken⟩ := Machine.run_concat_eq_some.mp reached
    cases transition_of_step taken with
    | arrived => exact List.mem_append_left _ (ih before stopped)
    | header => cases stopped
    | request => cases stopped
    | readFailed => exact List.mem_append_right _ (List.mem_singleton.mpr rfl)
    | written => exact List.mem_append_left _ (ih before stopped)
    | writeFailed => exact List.mem_append_left _ (ih before stopped)

/-- A loop that has received everything and never failed to read goes on. -/
theorem continues_of_run {requests : List Request} (results : ResultsFit callFun)
    {schedule : List Event} (reached : (machine layout callFun).run start schedule = some s)
    (sent : arrivals schedule = (requests.map (Request.frame layout)).flatten)
    (going : .readError ∉ schedule) (more : schedule.count .readOk < 2 * requests.length) :
    ∃ next, (machine layout callFun).step s .readOk = some next := by
  obtain ⟨done, current, left, rfl, decoding⟩ :=
    decodes_of_run requests results reached ⟨[], (List.append_nil _).trans sent⟩
  have reads := decoding.reads
  refine decoding.continues results sent (fun stopped => going (stopped_of_run reached stopped)) ?_
  intro none
  have lengths := congrArg List.length none
  simp only [List.length_append, List.length_nil] at lengths more
  omega

private theorem completes_of_arrival {requests : List Request} (results : ResultsFit callFun)
    {stream : List UInt8} (sent : stream = (requests.map (Request.frame layout)).flatten)
    (reads : Nat) (bound : reads ≤ 2 * requests.length) :
    ∃ s, (machine layout callFun).run start
      (.arrive stream :: List.replicate reads .readOk) = some s := by
  induction reads with
  | zero => exact ⟨_, rfl⟩
  | succ reads ih =>
    obtain ⟨s, reached⟩ := ih (by omega)
    have received : arrivals (.arrive stream :: List.replicate reads .readOk) = stream := by
      simp [arrivals]
    obtain ⟨next, taken⟩ := continues_of_run results reached (received.trans sent) (by simp)
      (by
      simp only [List.count_cons, List.count_replicate_self]
      simpa using Nat.lt_of_succ_le bound)
    refine ⟨next, ?_⟩
    rw [List.replicate_succ', ← List.cons_append, Machine.run_append, reached]
    simp [Machine.run, taken]

/-- The callback of the sample server answers every request with fourteen bytes. -/
def callP : CallbackFun := fun _ => some
  { size := 14
    data := [104, 101, 108, 108, 111, 32, 99, 108, 105, 101, 110, 116, 0].map some ++ [none]
    allocated := fun _ => rfl }

/-- A request of one byte, and one longer than the preallocated buffer. -/
def sampleRequests : List Request :=
  [⟨1, [7], by decide⟩, ⟨2, List.replicate 3000 8, by rw [List.length_replicate]; omega⟩]

end LinkSession

end RpcLoop
