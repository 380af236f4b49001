import RpcLoop.Pool.Bookkeeping
import RpcLoop.Pool.Handles

/-! A caller that nobody interrupts. Taking the sections of a `write` one after
the other amounts to the whole call, so every sequence of calls is one of the
interleavings of the pool. -/

namespace RpcLoop

open Foundation

/-- A client's `write` is what its callers' actions amount to when nothing interrupts them. -/
theorem ClientLoop.write_run {layout : IntLayout} {s next : ClientLoop} {msg : List Cell}
    {msgL r : Int32} (written : s.write layout msg msgL = some (r, next)) :
    r = s.msgIndex ∧ (ClientLoop.machine layout).run s
      [.beginWrite msg msgL, .push s.writers.length, .insert s.writers.length,
        .arm s.writers.length, .post s.writers.length] = some next := by
  simp only [ClientLoop.write, Option.bind_eq_bind, Option.bind_eq_some_iff, Option.pure_def,
    Option.some.injEq, Prod.mk.injEq] at written
  obtain ⟨built, began, queued, pushed, inserted, entered, armed, started, posted, ended, same,
    rfl⟩ := written
  refine ⟨same.symm, ?_⟩
  simp [Machine.run, ClientLoop.machine, ClientLoop.step, began, pushed, entered, started, ended]

namespace PoolCalls

variable {κ : Type} {ops : ClientOps κ} {s : PoolCalls κ} {pool : ClientLoopPool κ}
variable {args : WriteArgs}

/-- A call of `write` beside those in progress. -/
def withCaller (s : PoolCalls κ) (caller : PoolCaller) : PoolCalls κ :=
  { s with callers := s.callers ++ [caller] }

@[simp] theorem withCaller_get (s : PoolCalls κ) (caller : PoolCaller) :
    (s.withCaller caller).callers[s.callers.length]? = some caller := by
  simp [withCaller]

@[simp] theorem withCaller_set (s : PoolCalls κ) (caller other : PoolCaller) :
    (s.withCaller caller).callers.set s.callers.length other = s.callers ++ [other] := by
  simp [withCaller]

@[simp] theorem withCaller_erase (s : PoolCalls κ) (caller : PoolCaller) :
    (s.withCaller caller).callers.eraseIdx s.callers.length = s.callers := by
  simp [withCaller, List.eraseIdx_append_of_length_le]

private theorem withCaller_link (unlocked : s.locked = false) {returned : Bool}
    (linked : s.pool.addLinkLocked ops args.ip args.port = (pool, returned)) :
    (s.withCaller (.linking args)).link ops s.callers.length =
      some (if returned then { s with pool := pool }.withCaller (.ready args)
        else { s with pool := pool }) := by
  have free : (s.withCaller (.linking args)).locked = false := by
    simpa [withCaller, locked, PoolCaller.locks] using unlocked
  have same : (s.withCaller (.linking args)).pool = s.pool := rfl
  simp only [PoolCalls.link, withCaller_get, free, Bool.false_eq_true, if_false, same, linked,
    withCaller_set, withCaller_erase]
  cases returned <;> rfl

private theorem withCaller_lock (args : WriteArgs) (clients : 0 < s.pool.curClientIndex) :
    (s.withCaller (.ready args)).lock s.callers.length =
      some (s.withCaller (.selecting args s.pool.curClientIndex.toNatClampNeg)) := by
  have same : (s.withCaller (.ready args)).pool = s.pool := rfl
  simp only [PoolCalls.lock, withCaller_get, same, clients, if_true, withCaller_set]
  rfl

private theorem withCaller_lock_empty (args : WriteArgs) (empty : ¬ 0 < s.pool.curClientIndex) :
    (s.withCaller (.ready args)).lock s.callers.length = some s := by
  have same : (s.withCaller (.ready args)).pool = s.pool := rfl
  simp only [PoolCalls.lock, withCaller_get, same, empty, if_false, withCaller_erase]
  rfl

private theorem withCaller_probe (s : PoolCalls κ) (args : WriteArgs) (rounds : Nat) {index : Int32}
    {answer : Bool} {c : PoolClient κ}
    (probed : s.pool.probe ops = some (index, answer, pool))
    (found : pool.clientAt index = some c) :
    (s.withCaller (.selecting args (rounds + 1))).probe ops s.callers.length =
      some ({ s with pool := pool }.withCaller
        (if answer ∨ rounds = 0 then
          .chosen args { i := index, ident := c.ident, moved := false }
        else .selecting args rounds)) := by
  have same : (s.withCaller (.selecting args (rounds + 1))).pool = s.pool := rfl
  simp only [PoolCalls.probe, withCaller_get, same, probed, found, Option.bind_eq_bind,
    Option.bind_some, withCaller_set, Option.pure_def]
  rfl

private theorem withCaller_subscript {c : Chosen} {client : PoolClient κ}
    (found : s.pool.clientAt c.i = some client) :
    (s.withCaller (.chosen args c)).subscript s.callers.length =
      some ((s.use c.ident client.ident).withCaller (.sending args c client.ident)) := by
  have same : (s.withCaller (.chosen args c)).pool = s.pool := rfl
  simp only [PoolCalls.subscript, withCaller_get, same, found]
  simp [withCaller, PoolCalls.use]

private theorem clientOf_clientAt {index : Int32} {c : PoolClient κ}
    (distinct : s.pool.idents.Nodup)
    (found : s.pool.clientAt index = some c) : s.clientOf c.ident = some c := by
  unfold ClientLoopPool.clientAt at found
  split at found
  · exact clientOf_member distinct (List.mem_of_getElem? found)
  · cases found

private theorem setClient_eq {index : Int32} {c : PoolClient κ} (distinct : s.pool.idents.Nodup)
    (found : s.pool.clientAt index = some c) (client : κ) :
    s.pool.setClient index client = (s.clientRuns c.ident client).pool := by
  unfold ClientLoopPool.clientAt at found
  split at found
  · have inside := (List.getElem?_eq_some_iff.mp found).1
    simp only [ClientLoopPool.setClient, PoolCalls.clientRuns, ClientLoopPool.mk.injEq, and_true]
    refine List.ext_getElem? fun position => ?_
    simp only [List.getElem?_modify, List.getElem?_map]
    cases there : s.pool.clientList[position]? with
    | none => rfl
    | some other =>
      by_cases same : index.toNatClampNeg = position
      · subst same
        cases found.symm.trans there
        simp
      · have apart : other.ident ≠ c.ident := fun equal => same
          ((List.getElem?_inj (by simpa [ClientLoopPool.idents] using inside) distinct).mp
            (by simp [ClientLoopPool.idents, found, there, equal]))
        simp [same, apart]
  · cases found

private theorem withCaller_send {index r : Int32} {c : PoolClient κ}
    (distinct : s.pool.idents.Nodup)
    (found : s.pool.clientAt index = some c)
    (sent : s.pool.sendTo ops index args.sendData args.sendSize = some (r, pool))
    (chosen : Chosen) :
    ∃ retired, (s.withCaller (.sending args chosen c.ident)).send ops s.callers.length =
      some { s with
        pool := pool
        retired := retired
        handles := s.handles ++ [{ chosen := chosen, r := r }] } := by
  simp only [ClientLoopPool.sendTo, found, Option.bind_eq_bind, Option.bind_some,
    Option.bind_eq_some_iff, Option.pure_def, Option.some.injEq, Prod.mk.injEq] at sent
  obtain ⟨⟨_, client⟩, written, rfl, rfl⟩ := sent
  have there : (s.withCaller (.sending args chosen c.ident)).clientOf c.ident = some c :=
    clientOf_clientAt distinct found
  refine ⟨(s.clientRuns c.ident client).retired, ?_⟩
  rw [setClient_eq distinct found client]
  simp only [PoolCalls.send, withCaller_get, there, written, Option.bind_eq_bind,
    Option.bind_some, Option.pure_def, withCaller_erase]
  rfl

private theorem probe_clientAt {index : Int32} {answer : Bool} {before : ClientLoopPool κ}
    (probed : before.probe ops = some (index, answer, pool)) :
    0 ≤ index ∧ ∃ c, pool.clientAt index = some c := by
  simp only [ClientLoopPool.probe, Option.bind_eq_bind, Option.bind_eq_some_iff, Option.pure_def,
    Option.some.injEq, Prod.mk.injEq] at probed
  obtain ⟨c, found, ⟨open', client⟩, _, rfl, _, rfl⟩ := probed
  simp only [ClientLoopPool.clientAt] at found
  split at found
  · rename_i nonneg
    refine ⟨nonneg, { c with client := client }, ?_⟩
    simp [ClientLoopPool.clientAt, ClientLoopPool.setClient, nonneg, found]
  · cases found

theorem reaches_step (ops : ClientOps κ) (event : PoolEvent κ) {next : PoolCalls κ}
    (taken : s.step ops event = some next) : (machine ops).Reaches s next :=
  (Machine.Reaches.refl s).next taken

private theorem select_reaches (args : WriteArgs) (rounds : Nat) {last index : Int32}
    (selected : s.pool.selectLoop ops (rounds + 1) last = some (index, pool)) :
    0 ≤ index ∧ ∃ c, pool.clientAt index = some c ∧
      (machine ops).Reaches (s.withCaller (.selecting args (rounds + 1)))
        ({ s with pool := pool }.withCaller
          (.chosen args { i := index, ident := c.ident, moved := false })) := by
  induction rounds generalizing s last with
  | zero =>
    simp only [ClientLoopPool.selectLoop, Option.bind_eq_bind, Option.bind_eq_some_iff] at selected
    obtain ⟨⟨tried, answer, middle⟩, probed, rest⟩ := selected
    have same : tried = index ∧ middle = pool := by
      cases answer <;> simpa using rest
    obtain ⟨rfl, rfl⟩ := same
    obtain ⟨nonneg, c, found⟩ := probe_clientAt probed
    have step := withCaller_probe s args 0 probed found
    rw [if_pos (.inr rfl)] at step
    exact ⟨nonneg, c, found, reaches_step ops (.probe s.callers.length) step⟩
  | succ rounds ih =>
    rw [ClientLoopPool.selectLoop] at selected
    simp only [Option.bind_eq_bind, Option.bind_eq_some_iff] at selected
    obtain ⟨⟨tried, answer, middle⟩, probed, rest⟩ := selected
    obtain ⟨nonneg, c, found⟩ := probe_clientAt probed
    have step := withCaller_probe s args (rounds + 1) probed found
    cases answer with
    | true =>
      cases rest
      rw [if_pos (.inl rfl)] at step
      exact ⟨nonneg, c, found, reaches_step ops (.probe s.callers.length) step⟩
    | false =>
      rw [if_neg (by simp)] at step
      have remaining : ({ s with pool := middle } : PoolCalls κ).pool.selectLoop ops (rounds + 1)
          tried = some (index, pool) := rest
      obtain ⟨inside, chosen, selected, later⟩ := ih remaining
      exact ⟨inside, chosen, selected,
        (reaches_step ops (.probe s.callers.length) step).trans later⟩

private theorem ready_reaches (args : WriteArgs) (pool : ClientLoopPool κ) {index : Int32}
    {chosen : ClientLoopPool κ} (distinct : s.pool.idents.Nodup)
    (selected : s.pool.getClientIndex ops = some (index, chosen)) :
    (index < 0 ∧ chosen = s.pool ∧ (machine ops).Reaches (s.withCaller (.ready args)) s) ∨
    (0 ≤ index ∧ ∀ r, chosen.sendTo ops index args.sendData args.sendSize = some (r, pool) →
      ∃ after, (machine ops).Reaches (s.withCaller (.ready args)) after ∧ after.pool = pool ∧
        after.callers = s.callers ∧
        after.handles.map PoolHandle.handle =
          s.handles.map PoolHandle.handle ++ [{ i := index, r := r }]) := by
  unfold ClientLoopPool.getClientIndex at selected
  cases count : s.pool.curClientIndex.toNatClampNeg with
  | zero =>
    rw [count] at selected
    cases selected
    have empty : ¬ 0 < s.pool.curClientIndex := by
      rw [← Int32.toNatClampNeg_pos_iff, count]
      exact Nat.lt_irrefl 0
    have locking := reaches_step ops (.lock s.callers.length) (withCaller_lock_empty args empty)
    exact .inl ⟨by decide, rfl, locking⟩
  | succ rounds =>
    rw [count] at selected
    have clients : 0 < s.pool.curClientIndex := by
      rw [← Int32.toNatClampNeg_pos_iff, count]
      exact Nat.succ_pos rounds
    have locking := withCaller_lock args clients
    rw [count] at locking
    obtain ⟨nonneg, c, found, selecting⟩ := select_reaches args rounds selected
    refine .inr ⟨nonneg, fun r sent => ?_⟩
    have apart : chosen.idents.Nodup := by
      rw [(ClientLoopPool.selectLoop_sameBook selected).idents]
      exact distinct
    let c' : Chosen := { i := index, ident := c.ident, moved := false }
    let after : PoolCalls κ := { s with pool := chosen }
    have subscribing : (after.withCaller (.chosen args c')).subscript s.callers.length =
        some ((after.use c.ident c.ident).withCaller (.sending args c' c.ident)) :=
      withCaller_subscript found
    obtain ⟨retired, sending⟩ :=
      withCaller_send (s := after.use c.ident c.ident) apart found sent c'
    have locked := reaches_step ops (.lock s.callers.length) locking
    have middle := reaches_step ops (.subscript s.callers.length) subscribing
    have last := reaches_step ops (.send s.callers.length) sending
    refine ⟨_, ((locked.trans selecting).trans middle).trans last, rfl, rfl, ?_⟩
    simp [PoolHandle.handle, after, c', PoolCalls.use]

private theorem linked_reaches (unlocked : s.locked = false) {returned : Bool}
    (linked : s.pool.addLink ops args.ip args.port = (pool, returned)) :
    (machine ops).Reaches s (if returned then { s with pool := pool }.withCaller (.ready args)
      else { s with pool := pool }) := by
  have begun := reaches_step (s := s) ops (.write args) rfl
  cases room : s.pool.full with
  | true =>
    rw [ClientLoopPool.addLink_of_full room] at linked
    cases linked
    simpa [PoolCalls.begin, withCaller, room] using begun
  | false =>
    rw [ClientLoopPool.addLink_of_room room] at linked
    have same : s.begin args = s.withCaller (.linking args) := by
      simp [PoolCalls.begin, withCaller, room]
    rw [same] at begun
    exact begun.trans
      (reaches_step ops (.addLink s.callers.length) (withCaller_link unlocked linked))

theorem Numbered.addLink {pool : ClientLoopPool κ} (numbered : Numbered pool) (ops : ClientOps κ)
    (ip : List UInt8) (port : Int32) : Numbered (pool.addLink ops ip port).1 := by
  cases room : pool.full with
  | true => rwa [ClientLoopPool.addLink_of_full room]
  | false =>
    rw [ClientLoopPool.addLink_of_room room]
    exact (numbered.extends_addLink ops ip port).toNumbered

theorem Numbered.write {before : ClientLoopPool κ} (numbered : Numbered before) {ip : List UInt8}
    {port : Int32} {sendData : List Cell} {sendSize : Int32} {handle : Option ClientHandle}
    (written : before.write ops ip port sendData sendSize = some (handle, pool)) :
    Numbered pool := by
  have same := ClientLoopPool.write_sameBook written
  exact ((numbered.addLink ops ip port).extends_same same.idents same.created).toNumbered

private theorem write_reaches (args : WriteArgs) (unlocked : s.locked = false)
    (numbered : Numbered s.pool) {handle : Option ClientHandle}
    (written : s.pool.write ops args.ip args.port args.sendData args.sendSize =
      some (handle, pool)) :
    ∃ after, (machine ops).Reaches s after ∧ after.pool = pool ∧ after.callers = s.callers ∧
      after.handles.map PoolHandle.handle =
        s.handles.map PoolHandle.handle ++ handle.toList.filter (0 ≤ ·.i) := by
  unfold ClientLoopPool.write at written
  split at written
  · rename_i linked result
    cases written
    have reached := linked_reaches unlocked result
    rw [if_neg Bool.false_ne_true] at reached
    exact ⟨_, reached, rfl, rfl, by simp⟩
  · rename_i linked result
    have reached := linked_reaches unlocked result
    rw [if_pos rfl] at reached
    simp only [Option.bind_eq_bind, Option.bind_eq_some_iff] at written
    obtain ⟨⟨index, chosen⟩, selected, rest⟩ := written
    have distinct : linked.idents.Nodup := by
      have linking := numbered.addLink ops args.ip args.port
      rw [result] at linking
      exact linking.distinct
    rcases ready_reaches (s := { s with pool := linked }) args pool distinct selected with
      ⟨negative, rfl, ended⟩ | ⟨nonneg, sends⟩
    · rw [if_neg (Int32.not_le.mpr negative)] at rest
      cases rest
      refine ⟨_, reached.trans ended, rfl, rfl, ?_⟩
      simp [Int32.not_le.mpr negative]
    · rw [if_pos nonneg] at rest
      simp only [Option.bind_eq_some_iff, Option.pure_def, Option.some.injEq,
        Prod.mk.injEq] at rest
      obtain ⟨⟨r, sent⟩, sending, rfl, rfl⟩ := rest
      obtain ⟨after, calls, same, callers, handles⟩ := sends r sending
      refine ⟨after, reached.trans calls, same, callers, ?_⟩
      rw [handles]
      simp [nonneg]

private theorem destroy_reaches (ops : ClientOps κ) (unlocked : s.locked = false) (ip : List UInt8)
    (port : Int32) :
    ∃ after, (machine ops).Reaches s after ∧ after.pool = s.pool.destroy ip port ∧
      after.callers.length = s.callers.length := by
  cases found : s.pool.position (linkKey ip port) with
  | none =>
    have same : s.pool.destroy ip port = s.pool := by simp [ClientLoopPool.destroy, found]
    exact ⟨s, Machine.Reaches.refl s, same.symm, rfl⟩
  | some index =>
    have step : s.step ops (.destroy ip port) = some { s with
        pool := s.pool.destroy ip port
        retired := s.retired ++ s.pool.clientList[index]?.toList
        callers := s.callers.map (·.erased index)
        handles := s.handles.map (·.erased index) } := by
      simp [PoolCalls.step, PoolCalls.destroy, unlocked, found]
    exact ⟨_, reaches_step ops _ step, rfl, by simp⟩

/-- The calls that take the locks. -/
def Locking : PoolCall κ → Prop
  | .write .. => True
  | .destroy .. => True
  | .destroyAll _ => False
  | .clientRuns .. => False

/-- Calls that come one after the other are an interleaving of their sections. -/
theorem calls_reach (ops : ClientOps κ) {calls : List (PoolCall κ)}
    (locking : ∀ call ∈ calls, Locking call) (idle : s.callers = []) (numbered : Numbered s.pool)
    (reached : (ClientLoopPool.machine ops).run s.pool calls = some pool) :
    ∃ after, (machine ops).Reaches s after ∧ after.pool = pool ∧ after.callers = [] := by
  induction calls generalizing s with
  | nil =>
    cases Option.some.inj reached
    exact ⟨s, Machine.Reaches.refl s, rfl, idle⟩
  | cons call rest ih =>
    obtain ⟨middle, taken, later⟩ := Machine.run_cons_eq_some.mp reached
    have unlocked : s.locked = false := by simp [locked, idle]
    have one : Numbered middle ∧ ∃ between, (machine ops).Reaches s between ∧
        between.pool = middle ∧ between.callers = [] := by
      cases call with
      | write ip port sendData sendSize =>
        simp only [ClientLoopPool.machine, ClientLoopPool.call, Option.map_eq_some_iff] at taken
        obtain ⟨⟨handle, after⟩, written, rfl⟩ := taken
        obtain ⟨between, steps, same, callers, _⟩ := write_reaches
          { ip := ip, port := port, sendData := sendData, sendSize := sendSize } unlocked numbered
          written
        exact ⟨numbered.write written, between, steps, same, callers.trans idle⟩
      | destroy ip port =>
        cases taken
        obtain ⟨between, steps, same, callers⟩ := destroy_reaches ops unlocked ip port
        exact ⟨numbered.destroy ip port, between, steps, same,
          List.length_eq_zero_iff.mp (by simp [callers, idle])⟩
      | destroyAll returning => exact (locking _ List.mem_cons_self).elim
      | clientRuns index client => exact (locking _ List.mem_cons_self).elim
    obtain ⟨numbered, between, steps, rfl, callers⟩ := one
    obtain ⟨after, more, same, none⟩ :=
      ih (fun call member => locking call (List.mem_cons_of_mem _ member)) callers numbered later
    exact ⟨after, steps.trans more, same, none⟩

end PoolCalls

end RpcLoop
