import RpcLoop.Client.Lifecycle
import RpcLoop.Foundation.Progress
import RpcLoop.System.Requests

/-! Requests on their way out of a client whose connection lasts. Every step that
moves one on lowers what the client has left to do, and whatever has been handed
over and not yet sent has a write that may send it. -/

namespace RpcLoop

open Foundation Asio Shared

namespace ClientLoop

/-- A message that has not been handed over: its write and the handler of that. -/
def messageWork (m : Outgoing) : Nat := 3 * (frameCells m).length + 3

/-- A call of `write` by the actions it has left. Without a queue it carries its
message until it returns. -/
def callWork (csq : ClientSendQueue) : WriteCall → Nat
  | .built m => messageWork m + 5
  | .queued m => (if csq = .on then 0 else messageWork m) + 4
  | .inserted m _ => (if csq = .on then 0 else messageWork m) + 3
  | .armed m => (if csq = .on then 0 else messageWork m) + 2

def postedWork : Posted → Nat
  | .doWriteMsg m => messageWork m + 1
  | _ => 1

def operationWork {α : Type} (op : Operation α) : Nat := if op.state = .live then 2 else 1

/-- What is left of the calls of `write`, the connect and the writes. -/
def work (s : ClientLoop) : Nat :=
  (s.writers.map (callWork s.csq)).sum + (s.posted.map postedWork).sum +
    (s.writeMsgQueue.items.map messageWork).sum + (s.link.connects.map operationWork).sum +
      (s.link.writes.map operationWork).sum

/-- How many bytes have been handed over. -/
def handedBytes (s : ClientLoop) : Nat := (s.handed.flatMap frameCells).length

/-- The steps of a client that move a request on. -/
def hands : Event → Bool
  | .push _ | .insert _ | .arm _ | .post _ | .connected _ | .handleConnect _ _ | .sent _
  | .handleWrite _ _ | .runPosted _ => true
  | _ => false

variable {layout : IntLayout} {s next : ClientLoop} {event : Event}

private theorem handedBytes_concat (m : Outgoing) (others : List Outgoing) :
    3 * ((others ++ [m]).flatMap frameCells).length + 3 =
      3 * (others.flatMap frameCells).length + messageWork m := by
  simp only [List.flatMap_append, List.flatMap_singleton, List.length_append, messageWork]
  omega

theorem operationWork_bounds {α : Type} (op : Operation α) :
    0 < operationWork op ∧ operationWork op ≤ 2 := by
  unfold operationWork
  split <;> omega

private theorem writeWork_asyncWrite {l link : Link} {m : Outgoing}
    (writing : l.asyncWrite m = some link) :
    link.connects = l.connects ∧
      (link.writes.map operationWork).sum ≤ (l.writes.map operationWork).sum + 2 := by
  obtain ⟨op, _, _, _, rfl⟩ := Link.asyncWrite_eq_some writing
  have bounds := operationWork_bounds op
  refine ⟨rfl, ?_⟩
  simp only [List.map_append, List.sum_append, List.map_cons, List.map_nil, List.sum_cons,
    List.sum_nil]
  omega

private theorem queueWork_pop {queue rest : SafeQueue Outgoing} {m : Outgoing}
    (popped : queue.pop = some (m, rest)) :
    (queue.items.map messageWork).sum = messageWork m + (rest.items.map messageWork).sum := by
  rw [(SafeQueue.pop_eq_some popped).1, List.map_cons, List.sum_cons]

/-- A step of a client leaves its work and the bytes handed over, or lowers what
they come to. -/
theorem work_step (lasts : Lasting s) (transition : Transition layout s event next)
    (whole : RpcSystem.breaks event = false) (idle : ∀ msg msgL, event ≠ .beginWrite msg msgL) :
    hands event = false ∧ next.work = s.work ∧ next.handedBytes = s.handedBytes ∨
      hands event = true ∧ next.work + 3 * next.handedBytes < s.work + 3 * s.handedBytes := by
  cases transition with
  | begun msg msgL res built => exact absurd rfl (idle msg msgL)
  | pushed caller m stage mode =>
    right
    have writers := sum_set (callWork s.csq) stage (.queued m)
    refine ⟨rfl, ?_⟩
    simp only [callWork, mode, if_true] at writers
    simp only [work, handedBytes, mode, SafeQueue.items_push, List.map_append, List.sum_append,
      List.map_cons, List.map_nil, List.sum_cons, List.sum_nil]
    omega
  | unqueued caller m stage mode =>
    right
    have writers := sum_set (callWork s.csq) stage (.queued m)
    refine ⟨rfl, ?_⟩
    simp only [callWork, mode, if_false] at writers
    simp only [work, handedBytes]
    omega
  | inserted caller m stage =>
    right
    have writers := sum_set (callWork s.csq) stage (.inserted m s.allocated)
    refine ⟨rfl, ?_⟩
    simp only [callWork] at writers
    simp only [work, handedBytes]
    omega
  | armed caller m p stage =>
    right
    have writers := sum_set (callWork s.csq) stage (.armed m)
    refine ⟨rfl, ?_⟩
    simp only [callWork] at writers
    simp only [work, handedBytes, ClientLoop.store]
    omega
  | returned caller m stage =>
    right
    have writers := sum_eraseIdx (callWork s.csq) stage
    refine ⟨rfl, ?_⟩
    simp only [callWork] at writers
    simp only [work, handedBytes, List.map_append, List.sum_append, List.map_cons, List.map_nil,
      List.sum_cons, List.sum_nil]
    split at writers
    · rename_i mode
      simp only [mode, if_true, postedWork] at writers ⊢
      omega
    · rename_i mode
      simp only [mode, if_false, postedWork] at writers ⊢
      omega
  | closeAsked => cases whole
  | disturbed => cases whole
  | reopened closed => cases lasts.opened.symm.trans closed
  | connected index op start live unlost =>
    right
    have connects := sum_set operationWork start { op with state := .done }
    refine ⟨rfl, ?_⟩
    simp only [operationWork, live, if_true] at connects
    simp only [work, handedBytes]
    simp only [reduceCtorEq, if_false] at connects
    omega
  | receivedHead => exact .inl ⟨rfl, rfl, rfl⟩
  | receivedMsg => exact .inl ⟨rfl, rfl, rfl⟩
  | sent index op start live up =>
    right
    have writes := sum_set operationWork start { op with state := .done }
    refine ⟨rfl, ?_⟩
    simp only [operationWork, live, if_true] at writes
    simp only [work, handedBytes]
    simp only [reduceCtorEq, if_false] at writes
    omega
  | connectOk index op link erased start done reading erases =>
    right
    obtain ⟨new, _, _, _, rfl⟩ := Link.asyncRead_eq_some reading
    have connects := sum_eraseIdx operationWork start
    have bounds := operationWork_bounds op
    rw [erases.rest]
    refine ⟨rfl, ?_⟩
    simp only [work, handedBytes, endConnect]
    omega
  | connectFailed index op start failed => cases whole
  | readClosed index error op start delivers closed => cases lasts.opened.symm.trans closed
  | headFailed index op t link start failed up kind closing => cases whole
  | msgFailed index op p length link start failed up kind closing => cases whole
  | headKnown index op head p known readMsg link start done up kind present headed buffer
      reading =>
    obtain ⟨new, _, _, _, rfl⟩ := Link.asyncRead_eq_some reading
    exact .inl ⟨rfl, rfl, rfl⟩
  | headUnknown index op head readMsg link start done up kind unknown buffer reading =>
    obtain ⟨new, _, _, _, rfl⟩ := Link.asyncRead_eq_some reading
    exact .inl ⟨rfl, rfl, rfl⟩
  | msgOk index op p length readMsg link start done up kind body reading =>
    obtain ⟨new, _, _, _, rfl⟩ := Link.asyncRead_eq_some reading
    exact .inl ⟨rfl, rfl, rfl⟩
  | writeClosed index error op start delivers closed => cases lasts.opened.symm.trans closed
  | writeFailed index op link start failed up closing => cases whole
  | writeOk index op start done opened nothing =>
    right
    have writes := sum_eraseIdx operationWork start
    have bounds := operationWork_bounds op
    refine ⟨rfl, ?_⟩
    simp only [work, handedBytes, endWrite]
    omega
  | writeNext index op m queue link start done opened mode status popped writing =>
    right
    have writes := sum_eraseIdx operationWork start
    have bounds := operationWork_bounds op
    obtain ⟨connects, more⟩ := writeWork_asyncWrite writing
    have queued := queueWork_pop popped
    have bytes := handedBytes_concat m s.handed
    refine ⟨rfl, ?_⟩
    simp only [endWrite] at connects more
    simp only [work, handedBytes, connects]
    omega
  | postedQuiet index handler queued nothing kind =>
    right
    have posted := sum_eraseIdx postedWork queued
    refine ⟨rfl, ?_⟩
    have some : 0 < postedWork handler := by cases handler <;> simp [postedWork]
    simp only [work, handedBytes]
    omega
  | postedNext index m queue link queued status popped writing =>
    right
    have posted := sum_eraseIdx postedWork queued
    obtain ⟨connects, more⟩ := writeWork_asyncWrite writing
    have taken := queueWork_pop popped
    have bytes := handedBytes_concat m s.handed
    refine ⟨rfl, ?_⟩
    simp only [postedWork] at posted
    simp only [work, handedBytes, connects]
    omega
  | postedMsg index m link queued status writing =>
    right
    have posted := sum_eraseIdx postedWork queued
    obtain ⟨connects, more⟩ := writeWork_asyncWrite writing
    have bytes := handedBytes_concat m s.handed
    refine ⟨rfl, ?_⟩
    simp only [postedWork] at posted
    simp only [work, handedBytes, connects]
    omega
  | postedClose index link queued closing =>
    exact absurd (List.mem_of_getElem? queued) lasts.unclosed
  | erased error timer after moved erases =>
    refine .inl ⟨rfl, ?_, ?_⟩
    · rw [erases.rest]
      rfl
    · rw [erases.rest]
      rfl
  | _ => exact .inl ⟨rfl, rfl, rfl⟩

end ClientLoop

namespace OwningClient

open ClientLoop

variable {layout : IntLayout} {s : OwningClient} {inner : ClientLoop.Event} {loop : ClientLoop}

private theorem bound_cases {m : Outgoing} (transition : Transition layout s.loop inner loop)
    (member : .doWriteMsg m ∈ loop.posted) :
    .doWriteMsg m ∈ s.loop.posted ∨ posting s.loop inner = some m := by
  cases transition with
  | returned caller own stage =>
    rcases List.mem_append.mp member with old | new
    · exact .inl old
    · right
      have same := List.mem_singleton.mp new
      split at same
      · cases same
      · cases same
        simp [posting, stage, WriteCall.msg]
  | closeAsked =>
    rcases List.mem_append.mp member with old | new
    · exact .inl old
    · cases List.mem_singleton.mp new
  | postedQuiet => exact .inl (List.mem_of_mem_eraseIdx member)
  | postedNext => exact .inl (List.mem_of_mem_eraseIdx member)
  | postedMsg => exact .inl (List.mem_of_mem_eraseIdx member)
  | postedClose => exact .inl (List.mem_of_mem_eraseIdx member)
  | connectOk index op link erased start done reading erases =>
    rw [erases.rest] at member
    exact .inl member
  | erased error timer after moved erases =>
    rw [erases.rest] at member
    exact .inl member
  | _ => exact .inl member

/-- The callers of the messages bound into posted handlers are inside `write`. -/
def HoldsBound (s : OwningClient) : Prop := ∀ m, .doWriteMsg m ∈ s.loop.posted → Held s.inside m

theorem HoldsBound.initial (csq : ClientSendQueue) : HoldsBound (start csq) :=
  fun _ member => by cases member

theorem HoldsBound.after (holds : HoldsBound s) (transition : Transition layout s.loop inner loop) :
    HoldsBound (s.after inner loop) := by
  intro m member
  rcases bound_cases transition member with old | new
  · have before := held_inside.mp (holds m old)
    apply held_inside.mpr
    rcases callers_step transition with same | ⟨more, _⟩
    · exact Nat.lt_of_lt_of_eq before (same m.addr).symm
    · exact Nat.lt_of_lt_of_eq (Nat.lt_add_right _ before) (more m.addr).symm
  · refine ⟨m, List.mem_append_right _ (List.mem_append_right _ ?_), rfl⟩
    rw [new]
    exact List.mem_cons_self

/-- A caller whose message is in no posted handler may leave. -/
theorem HoldsBound.ret (holds : HoldsBound s) {caller : Nat}
    (unbound : ∀ m ∈ s.returning[caller]?, refs Posted.bound s.loop.posted m.addr = 0) :
    HoldsBound { s with returning := s.returning.eraseIdx caller } := by
  intro m member
  obtain ⟨owner, known, addr⟩ := holds m member
  refine ⟨owner, ?_, addr⟩
  rcases List.mem_append.mp known with writer | returning
  · exact List.mem_append_left _ writer
  · apply List.mem_append_right
    cases found : s.returning[caller]? with
    | none => rwa [List.eraseIdx_of_length_le (List.getElem?_eq_none_iff.mp found)]
    | some left =>
      refine mem_eraseIdx_of_ne found returning ?_
      rintro rfl
      have bound := refs_pos (f := Posted.bound) member rfl
      rw [← addr, unbound owner found] at bound
      exact Nat.lt_irrefl _ bound

end OwningClient

/-- On an open socket a write is in progress at once. -/
theorem Link.asyncWrite_of_opened {l : Link} (opened : l.opened = true) (what : Outgoing) :
    l.asyncWrite what = some { l with
      writes := l.writes ++ [{ what := what, conn := l.attempt, state := .live }] } := by
  cases found : l.socket with
  | none => simp [Link.opened, found] at opened
  | some socket =>
    have up : socket.isOpen = true := by simpa [Link.opened, found] using opened
    simp [asyncWrite, operation, found, up]

namespace WireClient

open ClientLoop

variable {layout : IntLayout} {s : WireClient} {after : OwningClient} {event : ClientLoop.Event}

/-- What keeps requests moving on a connection that lasts: its connect or its
reads, and one write in progress for everything not yet sent. -/
structure Flowing (s : WireClient) : Prop where
  sound : s.loop.link.Sound
  status : s.loop.link.connects = [] → s.loop.link.clietnStatus = .connOk
  connects : ∀ op ∈ s.loop.link.connects, op.state ≠ .aborted
  writes : ∀ op ∈ s.loop.link.writes, op.conn = s.loop.link.attempt ∧ op.state ≠ .aborted
  underway : ∀ m ∈ s.loop.handed, s.unsent m ≠ [] →
    ∃ op ∈ s.loop.link.writes, op.what = m ∧ op.state = .live
  once : (s.loop.link.writes.map fun op => op.what.addr).Nodup

theorem Flowing.initial (csq : ClientSendQueue) : Flowing (start csq) where
  sound := .init
  status none := by cases none
  connects op member := by
    cases List.mem_singleton.mp member
    decide
  writes _ member := by cases member
  underway _ member := by cases member
  once := .nil

theorem Flowing.keep (flowing : Flowing s) (sound : after.loop.link.Sound)
    (status : after.loop.link.clietnStatus = s.loop.link.clietnStatus)
    (connects : after.loop.link.connects = s.loop.link.connects)
    (writes : after.loop.link.writes = s.loop.link.writes)
    (attempt : after.loop.link.attempt = s.loop.link.attempt)
    (handed : after.loop.handed = s.loop.handed) :
    Flowing { s with toOwningClient := after } where
  sound := sound
  status none := by
    rw [status]
    exact flowing.status (connects.symm.trans none)
  connects := by
    rw [connects]
    exact flowing.connects
  writes := by
    rw [writes, attempt]
    exact flowing.writes
  underway := by
    rw [writes, handed]
    exact flowing.underway
  once := by
    rw [writes]
    exact flowing.once

theorem Flowing.send (flowing : Flowing s) (placed : Placed s.loop) (placed' : Placed after.loop)
    {m : Outgoing} {link before : Link} (sound : after.loop.link.Sound)
    (opened : before.opened = true)
    (writing : before.asyncWrite m = some link) (same : after.loop.link = link)
    (status : before.clietnStatus = s.loop.link.clietnStatus)
    (connects : before.connects = s.loop.link.connects)
    (attempt : before.attempt = s.loop.link.attempt)
    (writes : before.writes.Sublist s.loop.link.writes)
    (live : ∀ op ∈ s.loop.link.writes, op.state = .live → op ∈ before.writes)
    (handed : after.loop.handed = s.loop.handed ++ [m]) :
    Flowing { s with toOwningClient := after } := by
  rw [Link.asyncWrite_of_opened opened] at writing
  cases writing
  refine ⟨sound, ?_, ?_, ?_, ?_, ?_⟩
  · rw [same]
    exact fun none => status.trans (flowing.status (connects.symm.trans none))
  · rw [same]
    exact fun op member => flowing.connects op (connects ▸ member)
  · rw [same]
    intro op member
    rcases List.mem_append.mp member with old | new
    · obtain ⟨conn, state⟩ := flowing.writes op (writes.subset old)
      exact ⟨conn.trans attempt.symm, state⟩
    · cases List.mem_singleton.mp new
      exact ⟨rfl, by simp⟩
  · rw [same, handed]
    intro other member left
    rcases List.mem_append.mp member with old | new
    · obtain ⟨op, known, what, state⟩ := flowing.underway other old left
      exact ⟨op, List.mem_append_left _ (live op known state), what, state⟩
    · cases List.mem_singleton.mp new
      exact ⟨_, List.mem_append_right _ List.mem_cons_self, rfl, rfl⟩
  · rw [same, List.map_append, List.nodup_append]
    refine ⟨flowing.once.sublist (writes.map _), List.nodup_singleton _, ?_⟩
    intro a old b new
    obtain ⟨op, known, rfl⟩ := List.mem_map.mp old
    cases List.mem_singleton.mp new
    -- a message is handed over once
    have single := placed'.distinct m.addr
    have there := List.count_pos_iff.mpr
      (List.mem_map_of_mem (f := Outgoing.addr) (placed.writes op (writes.subset known)))
    intro addr
    rw [show op.what.addr = m.addr from addr] at there
    simp only [line, handed, List.map_append, List.count_append, List.map_cons, List.map_nil,
      List.count_singleton_self] at single
    omega

private theorem map_set_of_eq {α β : Type} {f : α → β} {items : List α} {index : Nat}
    {item other : α}
    (found : items[index]? = some item) (same : f other = f item) :
    (items.set index other).map f = items.map f := by
  obtain ⟨inside, rfl⟩ := List.getElem?_eq_some_iff.mp found
  rw [List.map_set, same, ← List.getElem_map f (h := by simpa using inside)]
  exact List.set_getElem_self _

private theorem ne_of_live {α : Type} {op other : Operation α} (live : other.state = .live)
    (done : op.state = .done) : other ≠ op := by
  rintro rfl
  cases live.symm.trans done

/-- Every step of a lasting connection keeps requests moving. -/
theorem Flowing.loop (flowing : Flowing s) (placed : Placed s.loop) (lasts : Lasting s.loop)
    (transition : Transition layout s.loop event after.loop)
    (whole : RpcSystem.breaks event = false)
    (may : s.mayHappen event = true) : Flowing { s with toOwningClient := after } := by
  obtain ⟨loop, returning⟩ := after
  dsimp only at transition
  have placed' := placed.step transition
  have sound := sound_step flowing.sound transition
  have opened := lasts.opened
  cases transition with
  | closeAsked => cases whole
  | disturbed => cases whole
  | reopened closed => cases opened.symm.trans closed
  | connected index op start live unlost =>
    refine ⟨sound, ?_, ?_, flowing.writes, flowing.underway, flowing.once⟩
    · intro none
      have inside := (List.getElem?_eq_some_iff.mp start).1
      have length := congrArg List.length none
      rw [List.length_set] at length
      rw [length] at inside
      cases inside
    · intro other member
      rcases List.mem_or_eq_of_mem_set member with old | rfl
      · exact flowing.connects other old
      · simp
  | receivedHead => exact flowing.keep sound rfl rfl rfl rfl rfl
  | sent index op start live up =>
    have unsent : s.unsent op.what = [] := by
      simpa [mayHappen, start] using may
    refine ⟨sound, flowing.status, flowing.connects, ?_, ?_, ?_⟩
    · intro other member
      rcases List.mem_or_eq_of_mem_set member with old | rfl
      · exact flowing.writes other old
      · exact ⟨(flowing.writes op (List.mem_of_getElem? start)).1, by simp⟩
    · intro m member left
      obtain ⟨other, known, what, state⟩ := flowing.underway m member left
      refine ⟨other, mem_set_of_ne start known ?_, what, state⟩
      rintro rfl
      exact left (what ▸ unsent)
    · have same : (s.loop.link.writes.set index { op with state := .done }).map
          (fun op => op.what.addr) = s.loop.link.writes.map fun op => op.what.addr :=
        map_set_of_eq start rfl
      exact same ▸ flowing.once
  | connectOk index op link erased start done reading erases =>
    obtain ⟨new, _, _, _, rfl⟩ := Link.asyncRead_eq_some reading
    rw [erases.rest] at sound ⊢
    exact ⟨sound, fun _ => rfl, fun other member =>
      flowing.connects other (List.mem_of_mem_eraseIdx member), flowing.writes, flowing.underway,
      flowing.once⟩
  | connectFailed index op start failed => cases whole
  | readClosed index error op start delivers closed => cases opened.symm.trans closed
  | headFailed index op t link start failed up kind closing => cases whole
  | msgFailed index op p length link start failed up kind closing => cases whole
  | headKnown index op head p known readMsg link start done up kind present headed buffer
      reading =>
    obtain ⟨new, _, _, _, rfl⟩ := Link.asyncRead_eq_some reading
    exact flowing.keep sound rfl rfl rfl rfl rfl
  | headUnknown index op head readMsg link start done up kind unknown buffer reading =>
    obtain ⟨new, _, _, _, rfl⟩ := Link.asyncRead_eq_some reading
    exact flowing.keep sound rfl rfl rfl rfl rfl
  | msgOk index op p length readMsg link start done up kind body reading =>
    obtain ⟨new, _, _, _, rfl⟩ := Link.asyncRead_eq_some reading
    exact flowing.keep sound rfl rfl rfl rfl rfl
  | writeClosed index error op start delivers closed => cases opened.symm.trans closed
  | writeFailed index op link start failed up closing => cases whole
  | writeOk index op start done up nothing =>
    refine ⟨sound, flowing.status, flowing.connects,
      fun other member => flowing.writes other (List.mem_of_mem_eraseIdx member), ?_,
      flowing.once.sublist ((List.eraseIdx_sublist _ _).map _)⟩
    intro m member left
    obtain ⟨other, known, what, state⟩ := flowing.underway m member left
    exact ⟨other, mem_eraseIdx_of_ne start known (ne_of_live state done), what, state⟩
  | writeNext index op m queue link start done up mode status popped writing =>
    have still : (s.loop.endWrite index).opened = true := opened
    exact flowing.send placed placed' sound still writing rfl rfl rfl rfl
      (List.eraseIdx_sublist _ _)
      (fun other known live => mem_eraseIdx_of_ne start known (ne_of_live live done)) rfl
  | postedNext index m queue link queued status popped writing =>
    exact flowing.send placed placed' sound opened writing rfl rfl rfl rfl (.refl _)
      (fun _ known _ => known) rfl
  | postedMsg index m link queued status writing =>
    exact flowing.send placed placed' sound opened writing rfl rfl rfl rfl (.refl _)
      (fun _ known _ => known) rfl
  | postedClose index link queued closing =>
    exact absurd (List.mem_of_getElem? queued) lasts.unclosed
  | erased error timer erased moved erases =>
    rw [erases.rest] at sound ⊢
    exact flowing.keep sound rfl rfl rfl rfl rfl
  | _ => exact flowing.keep sound rfl rfl rfl rfl rfl

/-- A piece that goes out leaves the writes alone. -/
theorem Flowing.piece (flowing : Flowing s) {index count : Nat} {next : WireClient}
    (sending : s.sendPiece index count = some next) : Flowing next := by
  obtain ⟨op, _, _, rfl⟩ := sendPiece_cases sending
  refine ⟨flowing.sound, flowing.status, flowing.connects, flowing.writes, fun m member left => ?_,
    flowing.once⟩
  refine flowing.underway m member fun nothing => left ?_
  by_cases same : m.addr = op.what.addr
  · rw [unsent, List.drop_eq_nil_iff] at nothing ⊢
    simp only [advance, same, Function.update_self] at nothing ⊢
    omega
  · rw [unsent_advance_of_ne same, nothing]

/-- Nor does a caller that leaves `write`. -/
theorem Flowing.ret (flowing : Flowing s) (caller : Nat) :
    Flowing { s with returning := s.returning.eraseIdx caller } :=
  ⟨flowing.sound, flowing.status, flowing.connects, flowing.writes, flowing.underway, flowing.once⟩

/-- The bytes of a piece go on the wire. -/
theorem length_piece {index count : Nat} {next : WireClient}
    (sending : s.sendPiece index count = some next) :
    next.loop = s.loop ∧ 0 < count ∧ next.wire.length = s.wire.length + count := by
  simp only [sendPiece, Option.bind_eq_bind, Option.bind_eq_some_iff, Option.pure_def] at sending
  obtain ⟨op, _, taken⟩ := sending
  split at taken
  · rename_i allowed
    cases taken
    refine ⟨rfl, allowed.2.2.2.1, ?_⟩
    have left := allowed.2.2.2.2
    simp only [unsent, List.length_drop] at left
    simp only [advance, List.length_append, List.length_take, List.length_drop, length_shows]
    omega
  · cases taken

end WireClient

end RpcLoop
