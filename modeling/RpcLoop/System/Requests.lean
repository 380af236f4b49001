import RpcLoop.Client.Collection
import RpcLoop.System.Connection

/-! The way of a request: what callers write is what the session decodes and
hands to the callback, each request once and in the order of the wire. -/

namespace RpcLoop

open Foundation Asio Shared

/-- The message was built for the request. -/
structure Carries (layout : IntLayout) (a : Asked) (m : Outgoing) : Prop where
  addr : a.addr = m.addr
  head : m.obj.headInfo = a.request.head
  frame : m.obj.frame = .ok ((a.request.frame layout).map some)

theorem Carries.built {layout : IntLayout} {r : Request} {res : RpcStruct}
    (built : requestMsg layout r.reqId (r.body.map some) r.bodyLen = .ok res) (addr : Ptr) :
    Carries layout { addr := addr, request := r } { addr := addr, obj := res } := by
  have length := r.toInt_bodyLen
  have fits := r.fits
  obtain ⟨m, block, same, head, filled⟩ := requestMsg_eq layout r.reqId (r.body.map some) r.bodyLen
    (by omega) (by omega) (by simp [length])
  cases built.symm.trans same
  have all : (r.body.map some).take r.bodyLen.toInt.toNat = r.body.map some := by
    rw [List.take_of_length_le]
    simp [length]
  have frame := filled.frame
  rw [all, head] at frame
  refine ⟨rfl, head, frame.trans ?_⟩
  simp [Request.frame, Request.payload, Request.head]

namespace ClientLoop

variable {layout : IntLayout} {s next : ClientLoop} {event : Event}

/-- A message that a call, the queue, a posted handler or the history refers to. -/
def Present (s : ClientLoop) (m : Outgoing) : Prop :=
  m ∈ s.writers.map WriteCall.msg ∨ m ∈ s.writeMsgQueue.items ∨ .doWriteMsg m ∈ s.posted ∨
    m ∈ s.handed

private theorem msg_of_set {caller : Nat} {w : WriteCall} {m : Outgoing} {writers : List WriteCall}
    (stage : writers[caller]? = some w) (v : WriteCall) (same : v.msg = w.msg)
    (member : m ∈ (writers.set caller v).map WriteCall.msg) : m ∈ writers.map WriteCall.msg := by
  obtain ⟨call, known, rfl⟩ := List.mem_map.mp member
  rcases List.mem_or_eq_of_mem_set known with old | rfl
  · exact List.mem_map_of_mem old
  · rw [same]
    exact List.mem_map_of_mem (List.mem_of_getElem? stage)

/-- Only a new call brings a message that was nowhere before. -/
theorem msg_present_step {m : Outgoing} (transition : Transition layout s event next)
    (present : Present next m) :
    Present s m ∨ ∃ msg msgL res, event = .beginWrite msg msgL ∧
      requestMsg layout s.msgIndex msg msgL = .ok res ∧
        m = { addr := s.allocated, obj := res } := by
  cases transition with
  | begun msg msgL res built =>
    rcases present with writer | elsewhere
    · rw [List.map_append] at writer
      rcases List.mem_append.mp writer with old | new
      · exact .inl (.inl old)
      · exact .inr ⟨msg, msgL, res, rfl, built, List.mem_singleton.mp new⟩
    · exact .inl (.inr elsewhere)
  | pushed caller own stage mode =>
    left
    rcases present with writer | queued | elsewhere
    · exact .inl (msg_of_set stage (.queued own) rfl writer)
    · rcases List.mem_append.mp queued with old | new
      · exact .inr (.inl old)
      · rw [List.mem_singleton.mp new]
        exact .inl (List.mem_map.mpr ⟨_, List.mem_of_getElem? stage, rfl⟩)
    · exact .inr (.inr elsewhere)
  | unqueued caller own stage mode =>
    exact .inl (present.imp_left (msg_of_set stage (.queued own) rfl))
  | inserted caller own stage =>
    exact .inl (present.imp_left (msg_of_set stage (.inserted own s.allocated) rfl))
  | armed caller own p stage =>
    exact .inl (present.imp_left (msg_of_set stage (.armed own) rfl))
  | returned caller own stage =>
    left
    rcases present with writer | queued | posted | handed
    · obtain ⟨call, known, same⟩ := List.mem_map.mp writer
      exact .inl (List.mem_map.mpr ⟨call, List.mem_of_mem_eraseIdx known, same⟩)
    · exact .inr (.inl queued)
    · rcases List.mem_append.mp posted with old | new
      · exact .inr (.inr (.inl old))
      · have same := List.mem_singleton.mp new
        split at same
        · cases same
        · cases same
          exact .inl (List.mem_map.mpr ⟨_, List.mem_of_getElem? stage, rfl⟩)
    · exact .inr (.inr (.inr handed))
  | closeAsked =>
    left
    rcases present with writer | queued | posted | handed
    · exact .inl writer
    · exact .inr (.inl queued)
    · rcases List.mem_append.mp posted with old | new
      · exact .inr (.inr (.inl old))
      · cases List.mem_singleton.mp new
    · exact .inr (.inr (.inr handed))
  | writeNext index op own queue link start done opened mode status popped writing =>
    left
    have items := (SafeQueue.pop_eq_some popped).1
    rcases present with writer | queued | posted | handed
    · exact .inl writer
    · exact .inr (.inl (by rw [items]; exact List.mem_cons_of_mem _ queued))
    · exact .inr (.inr (.inl posted))
    · rcases List.mem_append.mp handed with old | new
      · exact .inr (.inr (.inr old))
      · rw [List.mem_singleton.mp new]
        exact .inr (.inl (by rw [items]; exact List.mem_cons_self))
  | postedNext index own queue link queued status popped writing =>
    left
    have items := (SafeQueue.pop_eq_some popped).1
    rcases present with writer | waiting | posted | handed
    · exact .inl writer
    · exact .inr (.inl (by rw [items]; exact List.mem_cons_of_mem _ waiting))
    · exact .inr (.inr (.inl (List.mem_of_mem_eraseIdx posted)))
    · rcases List.mem_append.mp handed with old | new
      · exact .inr (.inr (.inr old))
      · rw [List.mem_singleton.mp new]
        exact .inr (.inl (by rw [items]; exact List.mem_cons_self))
  | postedMsg index own link queued status writing =>
    left
    rcases present with writer | waiting | posted | handed
    · exact .inl writer
    · exact .inr (.inl waiting)
    · exact .inr (.inr (.inl (List.mem_of_mem_eraseIdx posted)))
    · rcases List.mem_append.mp handed with old | new
      · exact .inr (.inr (.inr old))
      · rw [List.mem_singleton.mp new]
        exact .inr (.inr (.inl (List.mem_of_getElem? queued)))
  | postedQuiet index handler queued nothing kind =>
    exact .inl (present.imp_right (.imp_right (.imp_left List.mem_of_mem_eraseIdx)))
  | postedClose index link queued closing =>
    exact .inl (present.imp_right (.imp_right (.imp_left List.mem_of_mem_eraseIdx)))
  | connectOk index op link erased start done reading erases =>
    rw [erases.rest] at present
    exact .inl present
  | erased error timer after moved erases =>
    rw [erases.rest] at present
    exact .inl present
  | _ => exact .inl present

private theorem present_of_sends {m : Outgoing} (sending : sends s event = some m) :
    Present s m := by
  rcases sends_source sending with queued | posted
  · exact .inr (.inl queued)
  · exact .inr (.inr (.inl posted))

private theorem registered_cases (transition : Transition layout s event next) :
    next.registered = s.registered ∨ ∃ m, Present s m ∧ next.registered =
      { addr := m.addr, reqId := m.obj.headInfo.reqId, entry := s.allocated } :: s.registered := by
  cases transition with
  | inserted caller m stage =>
    exact .inr ⟨m, .inl (List.mem_map_of_mem (List.mem_of_getElem? stage)), rfl⟩
  | connectOk index op link erased start done reading erases =>
    rw [erases.rest]
    exact .inl rfl
  | erased error timer after moved erases =>
    rw [erases.rest]
    exact .inl rfl
  | _ => exact .inl rfl

private theorem msgIndex_step (transition : Transition layout s event next)
    (idle : ∀ msg msgL, event ≠ .beginWrite msg msgL) : next.msgIndex = s.msgIndex := by
  cases transition with
  | begun msg msgL res built => exact absurd rfl (idle msg msgL)
  | connectOk index op link erased start done reading erases => rw [erases.rest]
  | erased error timer after moved erases => rw [erases.rest]
  | _ => rfl

/-- The socket is open and not reset, and no handler waits to close it. -/
structure Lasting (s : ClientLoop) : Prop where
  opened : s.link.opened = true
  unlost : s.link.lost = false
  unclosed : .doClose ∉ s.posted

/-- Nothing but the steps that break a connection ends it. -/
theorem Lasting.step (lasts : Lasting s) (transition : Transition layout s event next)
    (whole : RpcSystem.breaks event = false) :
    Lasting next ∧ next.link.attempt = s.link.attempt := by
  have opened := lasts.opened
  have unlost := lasts.unlost
  have unclosed := lasts.unclosed
  cases transition with
  | returned caller m stage =>
    refine ⟨⟨opened, unlost, fun member => ?_⟩, rfl⟩
    rcases List.mem_append.mp member with old | new
    · exact unclosed old
    · have same := List.mem_singleton.mp new
      split at same <;> cases same
  | closeAsked => cases whole
  | disturbed => cases whole
  | reopened closed => cases opened.symm.trans closed
  | connected index op start live unlost =>
    refine ⟨⟨?_, ?_, unclosed⟩, rfl⟩
    · simpa [Link.opened, Link.establish, Option.any_map] using opened
    · simpa [Link.lost, Link.establish, Option.any_map] using unlost
  | connectOk index op link erased start done reading erases =>
    obtain ⟨new, _, _, _, rfl⟩ := Link.asyncRead_eq_some reading
    rw [erases.rest]
    exact ⟨⟨opened, unlost, unclosed⟩, rfl⟩
  | connectFailed index op start failed => cases whole
  | readClosed index error op start delivers closed => cases opened.symm.trans closed
  | headFailed index op t link start failed up kind closing => cases whole
  | msgFailed index op p length link start failed up kind closing => cases whole
  | headKnown index op head p known readMsg link start done up kind present headed buffer
      reading =>
    obtain ⟨new, _, _, _, rfl⟩ := Link.asyncRead_eq_some reading
    exact ⟨⟨opened, unlost, unclosed⟩, rfl⟩
  | headUnknown index op head readMsg link start done up kind unknown buffer reading =>
    obtain ⟨new, _, _, _, rfl⟩ := Link.asyncRead_eq_some reading
    exact ⟨⟨opened, unlost, unclosed⟩, rfl⟩
  | msgOk index op p length readMsg link start done up kind body reading =>
    obtain ⟨new, _, _, _, rfl⟩ := Link.asyncRead_eq_some reading
    exact ⟨⟨opened, unlost, unclosed⟩, rfl⟩
  | writeClosed index error op start delivers closed => cases opened.symm.trans closed
  | writeFailed index op link start failed up closing => cases whole
  | writeNext index op m queue link start done up mode status popped writing =>
    obtain ⟨new, _, _, _, rfl⟩ := Link.asyncWrite_eq_some writing
    exact ⟨⟨opened, unlost, unclosed⟩, rfl⟩
  | postedQuiet index handler queued nothing kind =>
    exact ⟨⟨opened, unlost, fun member => unclosed (List.mem_of_mem_eraseIdx member)⟩, rfl⟩
  | postedNext index m queue link queued status popped writing =>
    obtain ⟨new, _, _, _, rfl⟩ := Link.asyncWrite_eq_some writing
    exact ⟨⟨opened, unlost, fun member => unclosed (List.mem_of_mem_eraseIdx member)⟩, rfl⟩
  | postedMsg index m link queued status writing =>
    obtain ⟨new, _, _, _, rfl⟩ := Link.asyncWrite_eq_some writing
    exact ⟨⟨opened, unlost, fun member => unclosed (List.mem_of_mem_eraseIdx member)⟩, rfl⟩
  | postedClose index link queued closing =>
    exact absurd (List.mem_of_getElem? queued) unclosed
  | erased error timer after moved erases =>
    rw [erases.rest]
    exact ⟨⟨opened, unlost, unclosed⟩, rfl⟩
  | _ => exact ⟨⟨opened, unlost, unclosed⟩, rfl⟩

end ClientLoop

/-- The handing side: every message carries the request of a call, and those in
`requests` were handed over, in this order. Entries are registered for such calls. -/
structure Handing (layout : IntLayout) (asked requests : List Asked) (s : WireClient) : Prop where
  untorn : WireClient.Untorn s
  present : ∀ m, ClientLoop.Present s.loop m → ∃ a ∈ asked, Carries layout a m
  handed : List.Forall₂ (Carries layout) requests s.loop.handed
  known : ∀ a ∈ requests, a ∈ asked
  catalog : ClientLoop.Catalogued s.loop
  registered : ∀ g ∈ s.loop.registered, ∃ a ∈ asked, a.addr = g.addr ∧ a.request.reqId = g.reqId

theorem WireClient.loop_follow (s : WireClient) (event : ClientLoop.Event) (after : ClientLoop) :
    (s.follow (s.toOwningClient.after event after)).loop = after := by
  unfold follow
  split <;> rfl

namespace Handing

open ClientLoop

variable {layout : IntLayout} {asked requests : List Asked} {s next : WireClient}

theorem initial (layout : IntLayout) (csq : ClientSendQueue) :
    Handing layout [] [] (WireClient.start csq) where
  untorn := .initial csq
  present _ present := by rcases present with none | none | none | none <;> cases none
  handed := .nil
  known _ member := by cases member
  catalog := .initial csq
  registered _ member := by cases member

theorem registers {event : ClientLoop.Event} (handing : Handing layout asked requests s)
    (taken : s.step layout (.loop event) = some next) :
    Catalogued next.loop ∧ ∀ g ∈ next.loop.registered, ∃ a ∈ asked, a.addr = g.addr ∧
      a.request.reqId = g.reqId := by
  obtain ⟨after, stepped, _, rfl⟩ := WireClient.loop_cases taken
  rw [WireClient.loop_follow]
  refine ⟨handing.catalog.step stepped, ?_⟩
  rcases registered_cases (transition_of_step stepped) with same | ⟨m, present, same⟩
  · rw [same]
    exact handing.registered
  · rw [same]
    intro g member
    rcases List.mem_cons.mp member with rfl | old
    · obtain ⟨a, known, carries⟩ := handing.present m present
      exact ⟨a, known, carries.addr, by rw [carries.head]; rfl⟩
    · exact handing.registered g old

/-- A step of the client that brings no new call. It hands over nothing when it
connects again. -/
theorem loop {event : ClientLoop.Event} (handing : Handing layout asked requests s)
    (taken : s.step layout (.loop event) = some next)
    (keeps : WireClient.KeepsFrames s (.loop event) next)
    (idle : ∀ msg msgL, event ≠ .beginWrite msg msgL) :
    ∃ more, Handing layout asked (requests ++ more) next ∧
      (next.loop.link.attempt ≠ s.loop.link.attempt → more = []) := by
  have untorn := handing.untorn.step taken keeps
  obtain ⟨catalog, registered⟩ := handing.registers taken
  obtain ⟨after, stepped, _, rfl⟩ := WireClient.loop_cases taken
  have transition := transition_of_step stepped
  have loop := WireClient.loop_follow s event after
  have present : ∀ m, Present (s.follow (s.toOwningClient.after event after)).loop m →
      ∃ a ∈ asked, Carries layout a m := by
    intro m there
    rw [loop] at there
    rcases msg_present_step transition there with before | ⟨msg, msgL, _, begins, _⟩
    · exact handing.present m before
    · exact absurd begins (idle msg msgL)
  rcases sends_cases transition handing.untorn.placed.early with
    ⟨_, handed, _⟩ | ⟨m, _, sending, handed, _, _, _, link⟩
  · refine ⟨[], ⟨untorn, present, ?_, ?_, catalog, registered⟩, fun _ => rfl⟩
    · rw [loop, handed, List.append_nil]
      exact handing.handed
    · simpa using handing.known
  · obtain ⟨a, member, carries⟩ := handing.present m (present_of_sends sending)
    refine ⟨[a], ⟨untorn, present, ?_, ?_, catalog, registered⟩, fun different => ?_⟩
    · rw [loop, handed]
      exact List.rel_append handing.handed (.cons carries .nil)
    · intro other there
      rcases List.mem_append.mp there with old | new
      · exact handing.known other old
      · rw [List.mem_singleton.mp new]
        exact member
    · rw [loop, link] at different
      exact absurd rfl different

/-- A call of `write` builds the message of its request. -/
theorem write {r : Request} (handing : Handing layout asked requests s)
    (id : r.reqId = s.loop.msgIndex)
    (taken : s.step layout (.loop (.beginWrite (r.body.map some) r.bodyLen)) = some next) :
    Handing layout (asked ++ [{ addr := s.loop.allocated, request := r }]) requests next := by
  have untorn := handing.untorn.step taken (WireClient.keepsFrames_of_quiet rfl)
  obtain ⟨catalog, registered⟩ := handing.registers taken
  obtain ⟨after, stepped, _, rfl⟩ := WireClient.loop_cases taken
  have transition := transition_of_step stepped
  have later : ∀ a ∈ asked, a ∈ asked ++ [{ addr := s.loop.allocated, request := r }] :=
    fun a member => List.mem_append_left _ member
  refine ⟨untorn, ?_, ?_, fun a member => later a (handing.known a member), catalog,
    fun g member => ?_⟩
  · intro m there
    rw [WireClient.loop_follow] at there
    rcases msg_present_step transition there with before | ⟨msg, msgL, res, begins, built, rfl⟩
    · obtain ⟨a, member, carries⟩ := handing.present m before
      exact ⟨a, later a member, carries⟩
    · cases begins
      rw [← id] at built
      exact ⟨_, List.mem_append_right _ List.mem_cons_self, .built built _⟩
  · have handed : after.handed = s.loop.handed := by
      cases transition with
      | begun msg msgL res built => rfl
    rw [WireClient.loop_follow, handed]
    exact handing.handed
  · obtain ⟨a, known, about⟩ := registered g member
    exact ⟨a, later a known, about⟩

theorem ret {caller : Nat} (handing : Handing layout asked requests s)
    (taken : s.step layout (.ret caller) = some next)
    (keeps : WireClient.KeepsFrames s (.ret caller) next) :
    Handing layout asked requests next := by
  have untorn := handing.untorn.step taken keeps
  obtain ⟨_, _, _, rfl⟩ := WireClient.ret_cases taken
  exact ⟨untorn, handing.present, handing.handed, handing.known, handing.catalog,
    handing.registered⟩

/-- A piece of the oldest unfinished request goes out. -/
theorem piece {index count : Nat} (handing : Handing layout asked requests s)
    (taken : s.step layout (.piece index count) = some next) (oldest : s.oldest index = true) :
    Handing layout asked requests next ∧ s.wire <+: next.wire ∧ next.loop = s.loop ∧
      next.base = s.base := by
  have untorn := handing.untorn.piece taken oldest
  obtain ⟨op, _, _, rfl⟩ := WireClient.sendPiece_cases taken
  exact ⟨⟨untorn, handing.present, handing.handed, handing.known, handing.catalog,
    handing.registered⟩, List.prefix_append _ _, rfl, rfl⟩

theorem addrs {handed : List Outgoing} (carried : List.Forall₂ (Carries layout) requests handed) :
    requests.map Asked.addr = handed.map Outgoing.addr := by
  induction carried with
  | nil => rfl
  | cons carries rest ih => rw [List.map_cons, List.map_cons, carries.addr, ih]

theorem frames {handed : List Outgoing} (carried : List.Forall₂ (Carries layout) requests handed) :
    handed.flatMap frameCells =
      (requests.map fun a => a.request.frame layout).flatten.map some := by
  induction carried with
  | nil => rfl
  | cons carries rest ih =>
    rw [List.flatMap_cons, ih, frameCells, carries.frame]
    simp [Except.toOption]

/-- No two requests handed over have the same message. -/
theorem distinct (handing : Handing layout asked requests s) :
    (requests.map Asked.addr).Nodup := by
  rw [addrs handing.handed]
  refine List.nodup_iff_count_le_one.mpr fun a => ?_
  have whole := handing.untorn.placed.distinct a
  rw [line, List.map_append, List.count_append] at whole
  exact Nat.le_trans (Nat.le_add_right _ _) whole

end Handing

/-- The requesting side while the connection lasts: its calls are numbered. -/
structure Requesting (layout : IntLayout) (asked requests : List Asked) (s : WireClient) :
    Prop extends Handing layout asked requests s where
  base : s.base = 0
  lasts : ClientLoop.Lasting s.loop
  index : s.loop.msgIndex = Int32.ofNat (asked.length + 1)
  numbered : ∀ number a, asked[number]? = some a → a.request.reqId = Int32.ofNat (number + 1)

namespace Requesting

open ClientLoop

variable {layout : IntLayout} {asked requests : List Asked} {s next : WireClient}

private theorem initial (layout : IntLayout) (csq : ClientSendQueue) :
    Requesting layout [] [] (WireClient.start csq) where
  toHanding := .initial layout csq
  base := rfl
  lasts := ⟨rfl, rfl, fun member => by cases member⟩
  index := rfl
  numbered _ _ found := by cases found

/-- On a connection that lasts nothing else changes. -/
theorem follow {event : ClientLoop.Event} (lasts : Lasting s.loop)
    (taken : s.step layout (.loop event) = some next) (whole : RpcSystem.breaks event = false) :
    ∃ after, Transition layout s.loop event after ∧ Lasting after ∧
      next = { s with toOwningClient := s.toOwningClient.after event after } := by
  obtain ⟨after, stepped, _, same⟩ := WireClient.loop_cases taken
  have transition := transition_of_step stepped
  obtain ⟨still, attempt⟩ := lasts.step transition whole
  exact ⟨after, transition, still, same.trans (if_pos attempt)⟩

/-- A step of the client that brings no new call. -/
theorem loop {event : ClientLoop.Event} (requesting : Requesting layout asked requests s)
    (taken : s.step layout (.loop event) = some next)
    (keeps : WireClient.KeepsFrames s (.loop event) next)
    (whole : RpcSystem.breaks event = false)
    (idle : ∀ msg msgL, event ≠ .beginWrite msg msgL) :
    ∃ more, Requesting layout asked (requests ++ more) next ∧ next.wire = s.wire := by
  obtain ⟨more, handing, _⟩ := requesting.toHanding.loop taken keeps idle
  obtain ⟨after, transition, lasts, rfl⟩ := follow requesting.lasts taken whole
  have index := (msgIndex_step transition idle).trans requesting.index
  exact ⟨more, ⟨handing, requesting.base, lasts, index, requesting.numbered⟩, rfl⟩

private theorem write {r : Request} (requesting : Requesting layout asked requests s)
    (id : r.reqId = s.loop.msgIndex)
    (taken : s.step layout (.loop (.beginWrite (r.body.map some) r.bodyLen)) = some next) :
    Requesting layout (asked ++ [{ addr := s.loop.allocated, request := r }]) requests next ∧
      next.wire = s.wire := by
  have handing := requesting.toHanding.write id taken
  obtain ⟨after, transition, lasts, rfl⟩ := follow requesting.lasts taken rfl
  refine ⟨⟨handing, requesting.base, lasts, ?_, ?_⟩, rfl⟩
  · cases transition with
    | begun msg msgL res built =>
      simp only [requesting.index, List.length_append, List.length_singleton,
        Int32.ofNat_add (asked.length + 1) 1]
      rfl
  · intro number a found
    rcases Nat.lt_trichotomy number asked.length with before | last | beyond
    · rw [List.getElem?_append_left before] at found
      exact requesting.numbered number a found
    · subst last
      rw [List.getElem?_concat_length] at found
      cases found
      exact id.trans requesting.index
    · rw [List.getElem?_eq_none (by rwa [List.length_append, List.length_singleton])] at found
      cases found

theorem ret {caller : Nat} (requesting : Requesting layout asked requests s)
    (taken : s.step layout (.ret caller) = some next)
    (keeps : WireClient.KeepsFrames s (.ret caller) next) :
    Requesting layout asked requests next ∧ next.wire = s.wire ∧ next.loop = s.loop := by
  have handing := requesting.toHanding.ret taken keeps
  obtain ⟨_, _, _, rfl⟩ := WireClient.ret_cases taken
  exact ⟨⟨handing, requesting.base, requesting.lasts, requesting.index, requesting.numbered⟩, rfl,
    rfl⟩

/-- A piece of the oldest unfinished request goes out. -/
theorem piece {index count : Nat} (requesting : Requesting layout asked requests s)
    (taken : s.step layout (.piece index count) = some next) (oldest : s.oldest index = true) :
    Requesting layout asked requests next ∧ s.wire <+: next.wire ∧ next.loop = s.loop := by
  obtain ⟨handing, wire, loop, base⟩ := requesting.toHanding.piece taken oldest
  refine ⟨⟨handing, base.trans requesting.base, ?_, ?_, requesting.numbered⟩, wire, loop⟩
  · rw [loop]
    exact requesting.lasts
  · rw [loop]
    exact requesting.index

private theorem wire (requesting : Requesting layout asked requests s) :
    s.wire <+: (requests.map fun a => a.request.frame layout).flatten.map some := by
  have whole := requesting.untorn.neverTorn
  rw [WireClient.NeverTorn, WireClient.started, requesting.base, List.drop_zero,
    Handing.frames requesting.handed] at whole
  exact whole

/-- Calls have different ids. -/
theorem ids_nodup (requesting : Requesting layout asked requests s) (few : asked.length < 2 ^ 32) :
    (asked.map fun a => a.request.reqId).Nodup := by
  rw [List.nodup_iff_pairwise_ne, List.pairwise_iff_getElem]
  intro before after inside within less
  rw [List.length_map] at inside within
  rw [List.getElem_map, List.getElem_map,
    requesting.numbered before _ (List.getElem?_eq_getElem inside),
    requesting.numbered after _ (List.getElem?_eq_getElem within)]
  exact ofNat_ne (Nat.succ_lt_succ less) (by omega)

theorem same_of_id (requesting : Requesting layout asked requests s) (few : asked.length < 2 ^ 32)
    {first second : Asked} (here : first ∈ asked) (there : second ∈ asked)
    (same : first.request.reqId = second.request.reqId) : first = second :=
  List.inj_on_of_nodup_map (requesting.ids_nodup few) here there same

/-- So have the requests handed over. -/
theorem nodup (requesting : Requesting layout asked requests s) (few : asked.length < 2 ^ 32) :
    (requests.map fun a => a.request.reqId).Nodup := by
  refine List.Nodup.map_on ?_ (List.Nodup.of_map _ requesting.distinct)
  exact fun first here second there =>
    requesting.same_of_id few (requesting.known first here) (requesting.known second there)

end Requesting

theorem LinkSession.Decodes.more {layout : IntLayout} {callFun : Option CallbackFun}
    {requests : List Request} {arrived : List UInt8} {reads : Nat} {s : LinkSession}
    (decodes : Decodes layout callFun requests arrived reads s) (more : List Request) :
    Decodes layout callFun (requests ++ more) arrived reads s := by
  obtain ⟨done, current, left, rfl, decoding⟩ := decodes
  exact ⟨done, current, left ++ more, by simp [List.append_assoc], decoding⟩

/-- The session at the other end of a connection: what was sent on it is a
beginning of the frames of its requests, what has arrived a beginning of what
was sent, and of that the session has made some reads. All it has deleted had memory. -/
structure Received (layout : IntLayout) (callFun : Option CallbackFun) (requests : List Asked)
    (wire : List Cell) (arrived reads : Nat) (session : LinkSession) : Prop where
  sent : wire <+: (requests.map fun a => a.request.frame layout).flatten.map some
  decodes : ∃ bytes, wire.take arrived = bytes.map some ∧ bytes.length = arrived ∧
    LinkSession.Decodes layout callFun (requests.map Asked.request) bytes reads session
  released : ∀ res ∈ session.released, 0 < res.size

namespace Received

variable {layout : IntLayout} {callFun : Option CallbackFun} {requests : List Asked}
  {wire : List Cell} {arrived reads : Nat} {session next : LinkSession}

theorem initial (layout : IntLayout) (callFun : Option CallbackFun) :
    Received layout callFun [] [] 0 0 .start where
  sent := List.nil_prefix
  decodes := ⟨[], rfl, rfl, [], none, [], rfl, .initial⟩
  released _ member := by cases member

/-- More is sent, of these requests or of later ones. -/
theorem more (received : Received layout callFun requests wire arrived reads session)
    {later : List Asked} {longer : List Cell} (grows : wire <+: longer)
    (sent : longer <+: ((requests ++ later).map fun a => a.request.frame layout).flatten.map some) :
    Received layout callFun (requests ++ later) longer arrived reads session where
  sent := sent
  decodes := by
    obtain ⟨bytes, same, length, decodes⟩ := received.decodes
    have inside : arrived ≤ wire.length := by
      have count := congrArg List.length same
      rw [List.length_take, List.length_map] at count
      omega
    obtain ⟨rest, whole⟩ := grows
    refine ⟨bytes, ?_, length, ?_⟩
    · rw [← same, ← whole, List.take_append_of_le_length inside]
    · rw [List.map_append]
      exact decodes.more _
  released := received.released

private theorem prefix_of_map_some {first second : List UInt8}
    (sent : first.map some <+: second.map some) : first <+: second := by
  have same := List.prefix_iff_eq_take.mp sent
  rw [List.length_map, ← List.map_take] at same
  rw [List.prefix_iff_eq_take]
  exact List.map_injective_iff.mpr (fun _ _ => Option.some.inj) same

/-- What has arrived is a beginning of the frames of the requests. -/
theorem begun (received : Received layout callFun requests wire arrived reads session)
    {bytes : List UInt8} (same : wire.take arrived = bytes.map some) :
    bytes <+: ((requests.map Asked.request).map (Request.frame layout)).flatten := by
  have first := (List.take_prefix arrived wire).trans received.sent
  rw [same] at first
  rw [List.map_map]
  exact prefix_of_map_some first

/-- Bytes that arrive are those that were sent next. -/
theorem arrive (received : Received layout callFun requests wire arrived reads session)
    (results : ResultsSound callFun) {count : Nat} {freed : Nat → UInt8} {bytes : List UInt8}
    (found : bytes = shown freed ((wire.drop arrived).take count))
    (stepped : (LinkSession.machine layout callFun).step session (.arrive bytes) = some next) :
    Received layout callFun requests wire (arrived + bytes.length) reads next := by
  obtain ⟨before, same, length, decodes⟩ := received.decodes
  obtain ⟨values, known⟩ : ∃ values : List UInt8, wire = values.map some := by
    have sent := List.prefix_iff_eq_take.mp received.sent
    rw [← List.map_take] at sent
    exact ⟨_, sent⟩
  have piece : (wire.drop arrived).take count = bytes.map some := by
    rw [known, ← List.map_drop, ← List.map_take, shown_map_some] at found
    rw [known, found, List.map_take, List.map_drop]
  have fewer : bytes.length ≤ count := by
    have size := congrArg List.length piece
    rw [List.length_take, List.length_map] at size
    omega
  have sent : (wire.drop arrived).take bytes.length = bytes.map some := by
    rw [← Nat.min_eq_left fewer, ← List.take_take, piece]
    exact List.take_of_length_le (by simp)
  refine ⟨received.sent, ⟨before ++ bytes, ?_, by simp [length], ?_⟩,
    results.released_of_step received.released stepped⟩
  · rw [List.take_add, same, sent, List.map_append]
  · have after := decodes.step results.fit (received.begun same) stepped
    simpa [LinkSession.arrivals] using after

/-- A handler of the session reads on, or leaves the reading alone. -/
theorem handle (received : Received layout callFun requests wire arrived reads session)
    (results : ResultsSound callFun) {event : LinkSession.Event}
    (quiet : LinkSession.arrivals [event] = [])
    (stepped : (LinkSession.machine layout callFun).step session event = some next) :
    Received layout callFun requests wire arrived (reads + [event].count .readOk) next := by
  obtain ⟨bytes, same, length, decodes⟩ := received.decodes
  have after := decodes.step results.fit (received.begun same) stepped
  rw [quiet, List.append_nil] at after
  exact ⟨received.sent, ⟨bytes, same, length, after⟩,
    results.released_of_step received.released stepped⟩

/-- What the session has executed are the first of the requests. -/
theorem executed (received : Received layout callFun requests wire arrived reads session) :
    ∃ executed, executed <+: requests ∧
      session.handled.map RpcStruct.content = executed.map (fun a => a.request.content) ∧
      session.calls = executed.flatMap fun a =>
        callsFor callFun (a.request.body.map some) a.request.bodyLen := by
  obtain ⟨bytes, _, _, done, current, left, split, decoding⟩ := received.decodes
  have first : done <+: requests.map Asked.request := by
    rw [split, List.append_assoc]
    exact List.prefix_append _ _
  have taken := List.prefix_iff_eq_take.mp first
  rw [← List.map_take] at taken
  refine ⟨requests.take done.length, List.take_prefix _ _, ?_, ?_⟩
  · rw [decoding.handled]
    conv_lhs => rw [taken]
    rw [List.map_map]
    rfl
  · rw [decoding.calls]
    conv_lhs => rw [taken]
    rw [List.flatMap_map]

end Received

namespace RpcSystem

/-- How many reads of the session an event completes. -/
def Event.reads : Event → Nat
  | .session .readOk => 1
  | _ => 0

variable {layout : IntLayout} {callFun : Option CallbackFun} {memory : Memory}
  {requests : List Asked} {reads : Nat} {s next : RpcSystem} {event : Event}

/-- The requesting side and the session that serves it. -/
structure Serving (layout : IntLayout) (callFun : Option CallbackFun) (requests : List Asked)
    (reads : Nat) (s : RpcSystem) : Prop where
  requesting : Requesting layout s.asked requests s.client
  received : Received layout callFun requests s.client.wire s.arrived reads s.session

theorem Serving.initial (layout : IntLayout) (callFun : Option CallbackFun)
    (csq : ClientSendQueue) : Serving layout callFun [] 0 (start csq) where
  requesting := .initial layout csq
  received := .initial layout callFun

theorem Serving.client (serving : Serving layout callFun requests reads s)
    {asked more : List Asked} {client : WireClient} {toClient : List UInt8}
    (requesting : Requesting layout asked (requests ++ more) client)
    (wire : s.client.wire <+: client.wire) :
    Serving layout callFun (requests ++ more) reads
      { s with client := client, asked := asked, toClient := toClient } where
  requesting := requesting
  received := serving.received.more wire requesting.wire

theorem Serving.step (serving : Serving layout callFun requests reads s)
    (results : ResultsSound callFun) (transition : Transition layout callFun memory s event next)
    (keeps : KeepsFrames s event next) :
    ∃ more, Serving layout callFun (requests ++ more) (reads + event.reads) next := by
  have same : requests ++ [] = requests := List.append_nil requests
  cases transition with
  | wrote request client id stepped =>
    obtain ⟨requesting, wire⟩ := serving.requesting.write id stepped
    rw [← same] at requesting
    exact ⟨[], serving.client requesting ⟨[], by rw [List.append_nil, wire]⟩⟩
  | left caller client stepped =>
    obtain ⟨requesting, wire, _⟩ := serving.requesting.ret stepped keeps
    rw [← same] at requesting
    exact ⟨[], serving.client requesting ⟨[], by rw [List.append_nil, wire]⟩⟩
  | moved inner client allowed stepped =>
    obtain ⟨more, requesting, wire⟩ := serving.requesting.loop stepped keeps
      (breaks_of_lasting allowed) (by rintro msg msgL rfl; cases allowed)
    exact ⟨more, serving.client requesting ⟨[], by rw [List.append_nil, wire]⟩⟩
  | requestSent index count client stepped =>
    obtain ⟨requesting, wire, _⟩ := serving.requesting.piece stepped keeps
    rw [← same] at requesting
    exact ⟨[], serving.client requesting wire⟩
  | arrived count bytes session found stepped =>
    refine ⟨[], ?_⟩
    rw [same]
    exact ⟨serving.requesting, serving.received.arrive results found stepped⟩
  | read session stepped =>
    refine ⟨[], ?_⟩
    rw [same]
    exact ⟨serving.requesting, serving.received.handle results rfl stepped⟩
  | written index bytes session sends all stepped =>
    refine ⟨[], ?_⟩
    rw [same]
    exact ⟨serving.requesting, serving.received.handle results rfl stepped⟩
  | replySent index count done bytes sends stands positive inside =>
    refine ⟨[], ?_⟩
    rw [same]
    exact ⟨serving.requesting, serving.received⟩
  | received index op client start enough stepped =>
    obtain ⟨more, requesting, wire⟩ := serving.requesting.loop stepped
      (WireClient.keepsFrames_of_quiet rfl) rfl (fun _ _ begins => by cases begins)
    exact ⟨more, serving.client requesting ⟨[], by rw [List.append_nil, wire]⟩⟩

theorem asked_step (transition : Transition layout callFun memory s event next) :
    next.asked.length = s.asked.length + event.writes := by
  cases transition with
  | wrote request client id stepped => simp [Event.writes]
  | _ => rfl

/-- Calls that were made stay made. -/
theorem asked_grows (transition : Transition layout callFun memory s event next) :
    s.asked <+: next.asked := by
  cases transition with
  | wrote => exact List.prefix_append _ _
  | _ => exact List.prefix_rfl

/-- The calls of `write` are those that a schedule begins. -/
theorem asked_length {schedule : List Event}
    (reached : (machine layout callFun memory).run s schedule = some next) :
    next.asked.length = s.asked.length + (schedule.map Event.writes).sum := by
  induction schedule generalizing s with
  | nil =>
    cases Option.some.inj reached
    rfl
  | cons event rest ih =>
    obtain ⟨middle, taken, later⟩ := Machine.run_cons_eq_some.mp reached
    rw [ih later, asked_step (transition_of_step taken), List.map_cons, List.sum_cons,
      Nat.add_assoc]

/-- The calls of a run that starts anew are those of its schedule. -/
theorem asked_few {csq : ClientSendQueue} {schedule : List Event}
    (reached : (machine layout callFun memory).run (start csq) schedule = some s)
    (few : (schedule.map Event.writes).sum < 2 ^ 32) : s.asked.length < 2 ^ 32 := by
  rw [asked_length reached]
  simpa [start] using few

/-- What the session has executed: requests that callers made and the client
handed over, in that order and each of them once, with the bytes their callers
wrote; and no result of the callback was deleted that had no memory. -/
def Executed (callFun : Option CallbackFun) (s : RpcSystem) : Prop :=
  ∃ executed : List Asked, executed.map Asked.addr <+: s.client.loop.handed.map Outgoing.addr ∧
    (∀ a ∈ executed, a ∈ s.asked) ∧ (executed.map fun a => a.request.reqId).Nodup ∧
    s.session.handled.map RpcStruct.content = executed.map (fun a => a.request.content) ∧
    (s.session.calls = executed.flatMap fun a =>
      callsFor callFun (a.request.body.map some) a.request.bodyLen) ∧
    ∀ res ∈ s.session.released, 0 < res.size

theorem Serving.executed (serving : Serving layout callFun requests reads s)
    (few : s.asked.length < 2 ^ 32) : Executed callFun s := by
  have requesting := serving.requesting
  obtain ⟨executed, first, handled, calls⟩ := serving.received.executed
  refine ⟨executed, ?_, ?_, ?_, handled, calls, serving.received.released⟩
  · rw [← Handing.addrs requesting.handed]
    exact first.map _
  · exact fun a member => requesting.known a (first.subset member)
  · exact (requesting.nodup few).sublist (first.map _).sublist

/-- Every call of `write` is executed at most once, in the order in which the
client sends, and nothing else is: whatever pieces the bytes travel in and
whatever else happens on the connection while it lasts. -/
theorem executed_of_run (layout : IntLayout) (callFun : Option CallbackFun)
    (memory : Memory) (results : ResultsSound callFun) (csq : ClientSendQueue)
    {schedule : List Event} {s : RpcSystem}
    (reached : (machine layout callFun memory).run (start csq) schedule = some s)
    (keeps : (machine layout callFun memory).AllSteps KeepsFrames (start csq) schedule)
    (few : (schedule.map Event.writes).sum < 2 ^ 32) : Executed callFun s := by
  have serving : ∃ requests reads, Serving layout callFun requests reads s := by
    refine Machine.run_invariant
      (fun s => ∃ requests reads, Serving layout callFun requests reads s) KeepsFrames ?_
      ⟨[], 0, .initial layout callFun csq⟩ keeps reached
    intro before event after ⟨requests, reads, serving⟩ taken kept
    obtain ⟨more, later⟩ := serving.step results (transition_of_step taken) kept
    exact ⟨_, _, later⟩
  obtain ⟨requests, reads, serving⟩ := serving
  exact serving.executed (asked_few reached few)

instance (s : RpcSystem) (event : Event) (next : RpcSystem) :
    Decidable (KeepsFrames s event next) :=
  match event with
  | .client inner =>
    inferInstanceAs (Decidable (WireClient.KeepsFrames s.client (.loop inner) next.client))
  | .ret caller =>
    inferInstanceAs (Decidable (WireClient.KeepsFrames s.client (.ret caller) next.client))
  | .sendRequest index count =>
    inferInstanceAs (Decidable (WireClient.KeepsFrames s.client (.piece index count) next.client))
  | .write _ | .arrive _ | .session _ | .sendReply _ _ | .receive _ => isTrue trivial

/-- A request of one byte on its way to the session, in two pieces. -/
def oneRequest : List Event :=
  [.write [7], .client (.push 0), .client (.connected 0), .client (.handleConnect 0 false),
    .client (.insert 0), .client (.arm 0), .client (.post 0), .client (.runPosted 0),
    .sendRequest 0 15, .arrive 15, .session .readOk, .sendRequest 0 6, .arrive 6, .session .readOk]

/-- Memory that holds zeros. -/
def noMemory : Memory where
  unset _ _ := 0
  freed _ _ := 0

theorem callP_sound : ResultsSound (some LinkSession.callP) where
  fit := by
    intro callback same calls res result
    cases same
    cases result
    decide
  allocated := by
    intro callback same calls res result
    cases same
    cases result
    exact .inl (by decide)

theorem oneRequest_executed :
    ∃ s, (machine .littleEndian (some LinkSession.callP) noMemory).run (start .on) oneRequest =
        some s ∧ s.session.calls.length = 1 ∧ Executed (some LinkSession.callP) s := by
  have runs : ((machine .littleEndian (some LinkSession.callP) noMemory).run (start .on)
      oneRequest).map (fun s => s.session.calls.length) = some 1 := by
    decide +kernel
  obtain ⟨s, reached, calls⟩ := Option.map_eq_some_iff.mp runs
  exact ⟨s, reached, calls, executed_of_run .littleEndian (some LinkSession.callP) noMemory
    callP_sound .on reached (by decide +kernel) (by decide)⟩

end RpcSystem

end RpcLoop
