import RpcLoop.Client.Pointers
import RpcLoop.Message.Receiving

/-! The objects in `recv_msg_map_`. Every one of them was default-constructed by
`newMsgBuf` for its own id, and whatever arrived for it since then has changed
its header and its buffer, never its offsets. -/

namespace RpcLoop

open Foundation Asio Shared

theorem ClientLoop.recvEntry_grown (reqId : Int32) : (recvEntry reqId).Grown :=
  RpcStruct.Grown.new.same rfl rfl rfl rfl fun block found => ⟨block, found, rfl⟩

namespace ClientLoop

/-- The objects in the map are default-constructed and no two ids share one. -/
structure EntriesBuilt (s : ClientLoop) : Prop where
  ptrs : PtrsKnown s
  grown : ∀ (reqId : Int32) (p : Ptr), s.recvMsgMap[reqId]? = some p → (s.entries p).Grown
  apart : ∀ (first second : Int32) (p : Ptr), s.recvMsgMap[first]? = some p →
    s.recvMsgMap[second]? = some p → first = second

variable {layout : IntLayout} {s next : ClientLoop} {event : Event}

theorem EntriesBuilt.initial (csq : ClientSendQueue) : EntriesBuilt (start csq) where
  ptrs := .initial csq
  grown reqId p found := by simp [start] at found
  apart first second p found := by simp [start] at found

/-- A step builds nothing new when the map only shrinks and the objects that
stay in it keep their shape. -/
theorem EntriesBuilt.keep (built : EntriesBuilt s) (ptrs : PtrsKnown next)
    (map : ∀ (reqId : Int32) (p : Ptr), next.recvMsgMap[reqId]? = some p →
      s.recvMsgMap[reqId]? = some p)
    (entries : ∀ p, p < s.allocated → (s.entries p).Grown → (next.entries p).Grown) :
    EntriesBuilt next where
  ptrs := ptrs
  grown reqId p found :=
    entries p (built.ptrs.map reqId p (map reqId p found)) (built.grown reqId p (map reqId p found))
  apart first second p found again :=
    built.apart first second p (map first p found) (map second p again)

private theorem grown_store {p : Ptr} {m : RpcStruct} (same : (s.entries p).Grown → m.Grown)
    (q : Ptr)
    (grown : (s.entries q).Grown) : ((s.store p m).entries q).Grown := by
  by_cases equal : q = p
  · subst equal
    simpa [ClientLoop.store] using same grown
  · simpa [ClientLoop.store, equal] using grown

private theorem grown_of_buffer {m other : RpcStruct} (same : other = { m with
      headInfo := other.headInfo
      status := other.status
      timer := other.timer
      eraseFlag := other.eraseFlag }) (grown : m.Grown) : other.Grown := by
  rw [same]
  exact grown.same rfl rfl rfl rfl fun block found => ⟨block, found, rfl⟩

theorem EntriesBuilt.step (built : EntriesBuilt s) (transition : Transition layout s event next) :
    EntriesBuilt next := by
  have ptrs := built.ptrs.step transition
  cases transition with
  | inserted caller m stage =>
    have fresh : ∀ (reqId : Int32) (p : Ptr), s.recvMsgMap[reqId]? = some p → p ≠ s.allocated :=
      fun reqId p found => Nat.ne_of_lt (built.ptrs.map reqId p found)
    refine ⟨ptrs, ?_, ?_⟩
    · intro reqId p found
      simp only [Std.TreeMap.getElem?_insert] at found
      split at found
      · cases found
        simpa using recvEntry_grown _
      · simpa [fresh reqId p found] using built.grown reqId p found
    · intro first second p found again
      simp only [Std.TreeMap.getElem?_insert] at found again
      split at found
      · rename_i equal
        cases found
        split at again
        · rename_i same
          exact (Std.LawfulEqCmp.compare_eq_iff_eq.mp equal).symm.trans
            (Std.LawfulEqCmp.compare_eq_iff_eq.mp same)
        · exact absurd rfl (fresh second _ again)
      · split at again
        · cases again
          exact absurd rfl (fresh first _ found)
        · exact built.apart first second p found again
  | armed caller m p stage =>
    exact built.keep ptrs (fun _ _ found => found) fun q _ =>
      grown_store (grown_of_buffer rfl) q
  | marked caller p stage final =>
    exact built.keep ptrs (fun _ _ found => found) fun q _ =>
      grown_store (grown_of_buffer rfl) q
  | receivedMsg index op p length bytes filled start live up kind copied =>
    exact built.keep ptrs (fun _ _ found => found) fun q _ =>
      grown_store (fun grown => grown.of_copyIn copied) q
  | headKnown index op head p known readMsg link start done opened kind present headed buffer
      reading =>
    exact built.keep ptrs (fun _ _ found => found) fun q _ =>
      grown_store (fun grown => (grown.of_setHead headed).of_newData buffer) q
  | headUnknown index op head readMsg link start done opened kind unknown buffer reading =>
    refine built.keep ptrs (fun _ _ found => found) fun q old grown => ?_
    simpa [ClientLoop.store, Nat.ne_of_lt old] using grown
  | msgFailed index op p length link start failed opened kind closing =>
    exact built.keep ptrs (fun _ _ found => found) fun q _ =>
      grown_store (grown_of_buffer rfl) q
  | msgOk index op p length readMsg link start done opened kind body reading =>
    exact built.keep ptrs (fun _ _ found => found) fun q _ =>
      grown_store (fun grown => grown_of_buffer rfl (grown.of_newData body)) q
  | expired p timer moved =>
    exact built.keep ptrs (fun _ _ found => found) fun q _ =>
      grown_store (grown_of_buffer rfl) q
  | timedOut p timer moved =>
    exact built.keep ptrs (fun _ _ found => found) fun q _ =>
      grown_store (grown_of_buffer rfl) q
  | timeoutCancelled p timer moved =>
    exact built.keep ptrs (fun _ _ found => found) fun q _ =>
      grown_store (grown_of_buffer rfl) q
  | connectOk index op link erased start done reading erases =>
    refine built.keep ptrs (fun reqId p found => erases.sub reqId p found) fun q _ => ?_
    exact grown_of_buffer (by rw [erases.entry q])
  | erased error timer after moved erases =>
    refine built.keep ptrs (fun reqId p found => erases.sub reqId p found) fun q _ => ?_
    exact grown_of_buffer (by rw [erases.entry q])
  | _ => exact built.keep ptrs (fun _ _ found => found) fun _ _ grown => grown

/-- Every client that a run reaches has such entries. -/
theorem EntriesBuilt.reachable (csq : ClientSendQueue)
    (reached : (machine layout).Reaches (start csq) s) : EntriesBuilt s := by
  refine Machine.Reaches.invariant ?_ (.initial csq) reached
  intro before event after built taken
  exact built.step (transition_of_step taken)

end ClientLoop

end RpcLoop
