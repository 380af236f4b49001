import RpcLoop.Client.Transition

/-! Objects a client refers to. Every pointer in the map, and every pointer a
read fills, was allocated before. -/

namespace RpcLoop.ClientLoop

open Foundation Asio Shared

/-- Every object that the map or a read points to has been allocated. -/
structure PtrsKnown (s : ClientLoop) : Prop where
  map : ∀ (reqId : Int32) (p : Ptr), s.recvMsgMap[reqId]? = some p → p < s.allocated
  reads : ∀ op ∈ s.link.reads, ∀ p length, op.what = .msg p length → p < s.allocated

variable {layout : IntLayout} {s next : ClientLoop} {event : Event}

theorem PtrsKnown.initial (csq : ClientSendQueue) : PtrsKnown (start csq) where
  map reqId p found := by simp [start] at found
  reads op member := by cases member

theorem PtrsKnown.keep (known : PtrsKnown s) (allocated : s.allocated ≤ next.allocated)
    (map : ∀ (reqId : Int32) (p : Ptr), next.recvMsgMap[reqId]? = some p →
      s.recvMsgMap[reqId]? = some p)
    (reads : ∀ op ∈ next.link.reads, ∀ p length, op.what = .msg p length → p < next.allocated) :
    PtrsKnown next where
  map reqId p found := Nat.lt_of_lt_of_le (known.map reqId p (map reqId p found)) allocated
  reads := reads

/-- A step that neither allocates nor inserts has to account for its reads only. -/
theorem PtrsKnown.withReads (known : PtrsKnown s) (allocated : next.allocated = s.allocated)
    (map : next.recvMsgMap = s.recvMsgMap)
    (reads : ∀ op ∈ next.link.reads, ∀ p length, op.what = .msg p length → p < s.allocated) :
    PtrsKnown next where
  map reqId p found := by
    rw [map] at found
    rw [allocated]
    exact known.map reqId p found
  reads := by
    rw [allocated]
    exact reads

theorem PtrsKnown.sameReads (known : PtrsKnown s) {reads : List (Operation Receive)}
    (old : ∀ op ∈ reads, ∃ before ∈ s.link.reads, before.what = op.what) :
    ∀ op ∈ reads, ∀ p length, op.what = .msg p length → p < s.allocated := by
  intro op member p length what
  obtain ⟨before, first, same⟩ := old op member
  exact known.reads before first p length (same.trans what)

theorem PtrsKnown.endRead (known : PtrsKnown s) (index : Nat) :
    ∀ op ∈ (s.endRead index).reads, ∀ p length, op.what = .msg p length → p < s.allocated :=
  fun op member => known.reads op (List.mem_of_mem_eraseIdx member)

theorem PtrsKnown.closedRead (known : PtrsKnown s) {index : Nat} {link : Link}
    (closing : (s.endRead index).doClose = some link) :
    ∀ op ∈ link.reads, ∀ p length, op.what = .msg p length → p < s.allocated := by
  refine known.sameReads fun op member => ?_
  obtain ⟨before, old, same⟩ := Link.doClose_reads closing op member
  exact ⟨before, List.mem_of_mem_eraseIdx old, same⟩

private theorem reads_append {l : Link} {op : Operation Receive} {bound : Nat}
    (old : ∀ op ∈ l.reads, ∀ p length, op.what = .msg p length → p < bound)
    (new : ∀ p length, op.what = .msg p length → p < bound) :
    ∀ other ∈ l.reads ++ [op], ∀ p length, other.what = .msg p length → p < bound := by
  intro other member
  rcases List.mem_append.mp member with before | last
  · exact old other before
  · rw [List.mem_singleton.mp last]
    exact new

theorem PtrsKnown.step (known : PtrsKnown s) (transition : Transition layout s event next) :
    PtrsKnown next := by
  cases transition with
  | begun msg msgL res built =>
    exact known.keep (Nat.le_succ _) (fun _ _ found => found) fun op member p length what =>
      Nat.lt_succ_of_lt (known.reads op member p length what)
  | inserted caller m stage =>
    constructor
    · intro reqId p found
      rw [Std.TreeMap.getElem?_insert] at found
      split at found
      · cases found
        exact Nat.lt_succ_self _
      · exact Nat.lt_succ_of_lt (known.map reqId p found)
    · exact fun op member p length what => Nat.lt_succ_of_lt (known.reads op member p length what)
  | reopened closed =>
    refine known.withReads rfl rfl ?_
    rw [Link.doConnect_reads]
    exact known.reads
  | receivedHead index op t bytes start live up kind length =>
    refine known.withReads rfl rfl ?_
    intro other member p length what
    rcases List.mem_or_eq_of_mem_set member with old | rfl
    · exact known.reads other old p length what
    · cases what
  | receivedMsg index op p length bytes filled start live up kind copied =>
    refine known.withReads rfl rfl ?_
    intro other member q size what
    rcases List.mem_or_eq_of_mem_set member with old | rfl
    · exact known.reads other old q size what
    · exact known.reads op (List.mem_of_getElem? start) q size what
  | connectOk index op link erased start done reading erases =>
    obtain ⟨new, kind, _, _, rfl⟩ := Link.asyncRead_eq_some reading
    rw [erases.rest]
    refine known.keep (Nat.le_refl _) erases.sub (reads_append known.reads ?_)
    rw [kind]
    exact fun _ _ what => by cases what
  | connectFailed index op start failed =>
    refine known.withReads rfl rfl (known.sameReads ?_)
    intro other member
    obtain ⟨before, old, rfl⟩ := List.mem_map.mp member
    exact ⟨before, old, before.what_abort.symm⟩
  | readClosed index error op start delivers closed =>
    refine known.withReads rfl rfl ?_
    rw [Link.doConnect_reads]
    exact known.endRead index
  | headFailed index op t link start failed opened kind closing =>
    exact known.withReads rfl rfl (known.closedRead closing)
  | msgFailed index op p length link start failed opened kind closing =>
    exact known.withReads rfl rfl (known.closedRead closing)
  | headKnown index op head p known' readMsg link start done opened kind present headed buffer
      reading =>
    obtain ⟨new, what, _, _, rfl⟩ := Link.asyncRead_eq_some reading
    refine known.withReads rfl rfl
      (reads_append (known.endRead index) ?_)
    rw [what]
    intro q size same
    cases same
    exact known.map _ _ present
  | headUnknown index op head readMsg link start done opened kind unknown buffer reading =>
    obtain ⟨new, what, _, _, rfl⟩ := Link.asyncRead_eq_some reading
    refine known.keep (Nat.le_succ _) (fun _ _ found => found) (reads_append ?_ ?_)
    · exact fun op member p length what =>
        Nat.lt_succ_of_lt (known.endRead index op member p length what)
    · rw [what]
      intro q size same
      cases same
      exact Nat.lt_succ_self _
  | msgOk index op p length readMsg link start done opened kind body reading =>
    obtain ⟨new, what, _, _, rfl⟩ := Link.asyncRead_eq_some reading
    refine known.withReads rfl rfl
      (reads_append (known.endRead index) ?_)
    rw [what]
    exact fun _ _ same => by cases same
  | writeClosed index error op start delivers closed =>
    refine known.withReads rfl rfl ?_
    rw [Link.doConnect_reads]
    exact known.reads
  | writeFailed index op link start failed opened closing =>
    exact known.withReads rfl rfl
      (known.sameReads (Link.doClose_reads (l := s.endWrite index) closing))
  | writeNext index op m queue link start done opened mode status popped writing =>
    obtain ⟨new, what, conn, on, rfl⟩ := Link.asyncWrite_eq_some writing
    exact ⟨known.map, known.reads⟩
  | postedNext index m queue link queued status popped writing =>
    obtain ⟨new, what, conn, on, rfl⟩ := Link.asyncWrite_eq_some writing
    exact ⟨known.map, known.reads⟩
  | postedMsg index m link queued status writing =>
    obtain ⟨new, what, conn, on, rfl⟩ := Link.asyncWrite_eq_some writing
    exact ⟨known.map, known.reads⟩
  | postedClose index link queued closing =>
    exact known.withReads rfl rfl
      (known.sameReads (Link.doClose_reads closing))
  | erased error timer after moved erases =>
    rw [erases.rest]
    exact known.keep (Nat.le_refl _) erases.sub known.reads
  | _ => exact ⟨known.map, known.reads⟩

/-- No handler of a reachable client follows a pointer to nothing. -/
theorem PtrsKnown.reachable (csq : ClientSendQueue)
    (reached : (machine layout).Reaches (start csq) s) : PtrsKnown s := by
  refine Machine.Reaches.invariant ?_ (.initial csq) reached
  intro before event after known taken
  exact known.step (transition_of_step taken)

end RpcLoop.ClientLoop
