import Mathlib.Data.List.InsertIdx
import Mathlib.Data.List.Nodup
import RpcLoop.Pool.Calls

/-! Handles and the clients they were returned for. A client is chosen, written
to and read by its position, and a removal of a client moves those behind it.
The chosen client is used exactly as long as no such removal comes between, or
the client met in its place lacks the request, and no client ends that a call
still has a pointer to. -/

namespace RpcLoop

open Foundation

namespace PoolCalls

variable {κ : Type} (ops : ClientOps κ)

/-- Every client that was written to or waited on is the chosen one. -/
def Attached (s : PoolCalls κ) : Prop := ∀ u ∈ s.uses, u.used = some u.chosen

/-- A step for which there is a client: a subscript lies inside the vector, and no
call uses a client that has ended since its subscript. -/
def FindsClient (s : PoolCalls κ) : PoolEvent κ → Prop
  | .subscript caller => ∀ c ∈ s.callers[caller]?.bind PoolCaller.choice,
    c.i.toNatClampNeg < s.pool.clientList.length
  | .send caller => ∀ used ∈ s.callers[caller]?.bind PoolCaller.client,
    (s.clientOf used).isSome = true
  | .read handle => ∀ h ∈ s.handles[handle]?,
    h.chosen.i.toNatClampNeg < s.pool.clientList.length
  | .find reader => ∀ r ∈ s.readers[reader]?, (s.clientOf r.used).isSome = true
  | .leave reader => ∀ r ∈ s.readers[reader]?, (s.clientOf r.used).isSome = true
  | _ => True

instance (s : PoolCalls κ) (event : PoolEvent κ) : Decidable (s.FindsClient event) :=
  match event with
  | .subscript caller => inferInstanceAs (Decidable
    (∀ c ∈ s.callers[caller]?.bind PoolCaller.choice,
      c.i.toNatClampNeg < s.pool.clientList.length))
  | .send caller => inferInstanceAs (Decidable
    (∀ used ∈ s.callers[caller]?.bind PoolCaller.client, (s.clientOf used).isSome = true))
  | .read handle => inferInstanceAs (Decidable
    (∀ h ∈ s.handles[handle]?, h.chosen.i.toNatClampNeg < s.pool.clientList.length))
  | .find reader | .leave reader => inferInstanceAs (Decidable
    (∀ r ∈ s.readers[reader]?, (s.clientOf r.used).isSome = true))
  | .write _ | .addLink _ | .lock _ | .probe _ | .destroy _ _ | .ended _ | .setCMaxNum _ |
    .clientRuns _ _ => isTrue trivial

/-- A step of a caller that no removal has led astray either: it subscripts the
position of its client to send; a read whose subscript a removal came before finds
no entry for its request. -/
def StaysPut (s : PoolCalls κ) (event : PoolEvent κ) (_ : PoolCalls κ) : Prop :=
  s.FindsClient event ∧
    match event with
    | .subscript caller => ∀ c ∈ s.callers[caller]?.bind PoolCaller.choice, c.moved = false
    | .find reader => ∀ r ∈ s.readers[reader]?, ∀ c ∈ s.clientOf r.used,
      r.chosen.moved = false ∨ ops.has c.client r.r = false
    | _ => True

/-- What holds of a choice until it is used up. -/
structure Known (pool : ClientLoopPool κ) (c : Chosen) : Prop where
  nonneg : 0 ≤ c.i
  old : c.ident < pool.created
  tracks : c.slot.Tracks pool.idents

/-- What holds of a call of `write` that has made its choice. -/
def KnownCaller (pool : ClientLoopPool κ) : PoolCaller → Prop
  | .chosen _ c => Known pool c
  | .sending _ c used => Known pool c ∧ (c.moved = false → used = c.ident)
  | _ => True

/-- Clients are numbered as they are created. -/
structure Numbered (pool : ClientLoopPool κ) : Prop where
  distinct : pool.idents.Nodup
  old : ∀ ident ∈ pool.idents, ident < pool.created

/-- The invariant: choices know whether their client is still in its place. -/
structure Traced (s : PoolCalls κ) : Prop extends Numbered s.pool where
  callers : ∀ caller ∈ s.callers, KnownCaller s.pool caller
  handles : ∀ h ∈ s.handles, Known s.pool h.chosen
  readers : ∀ r ∈ s.readers, r.used = r.chosen.ident ↔ r.chosen.moved = false
  attached : s.Attached

variable {ops} {s next : PoolCalls κ} {pool after : ClientLoopPool κ} {c : Chosen}

theorem clientAt_ident (pool : ClientLoopPool κ) (c : Chosen) (nonneg : 0 ≤ c.i) :
    (pool.clientAt c.i).map PoolClient.ident = pool.idents[c.slot.position]? := by
  simp [ClientLoopPool.clientAt, ClientLoopPool.idents, Chosen.slot, nonneg]

/-- The position of a choice shows its client exactly when nothing moved. -/
theorem Known.shows_iff (known : Known pool c) :
    (pool.clientAt c.i).map PoolClient.ident = some c.ident ↔ c.moved = false := by
  rw [clientAt_ident pool c known.nonneg]
  exact known.tracks.shows_iff

theorem Known.of_idents (known : Known pool c) (idents : after.idents = pool.idents)
    (created : after.created = pool.created) : Known after c where
  nonneg := known.nonneg
  old := by
    rw [created]
    exact known.old
  tracks := by
    rw [idents]
    exact known.tracks

private theorem known_of_clientAt {index : Int32} {client : PoolClient κ}
    (old : ∀ ident ∈ pool.idents, ident < pool.created)
    (found : pool.clientAt index = some client) :
    Known pool { i := index, ident := client.ident, moved := false } := by
  have nonneg : 0 ≤ index := by
    unfold ClientLoopPool.clientAt at found
    split at found
    · assumption
    · cases found
  have shown := clientAt_ident pool { i := index, ident := client.ident, moved := false } nonneg
  rw [found, Option.map_some] at shown
  refine ⟨nonneg, ?_, Slot.tracks_of_getElem? shown.symm⟩
  exact old client.ident (List.mem_of_getElem? shown.symm)

/-- A client of the vector is the one with its identity. -/
theorem clientOf_member {client : PoolClient κ} (distinct : s.pool.idents.Nodup)
    (member : client ∈ s.pool.clientList) : s.clientOf client.ident = some client := by
  have known : (s.pool.clientList.find? fun other => other.ident == client.ident).isSome = true :=
    List.find?_isSome.mpr ⟨client, member, beq_self_eq_true client.ident⟩
  obtain ⟨other, first⟩ := Option.isSome_iff_exists.mp known
  have same : other.ident = client.ident := by simpa using List.find?_some first
  cases List.inj_on_of_nodup_map distinct (List.mem_of_find?_eq_some first) member same
  rw [clientOf, List.find?_append, first]
  rfl

/-- A change of the pool that removes no client. -/
structure Extends (pool after : ClientLoopPool κ) : Prop extends Numbered after where
  known : ∀ c, Known pool c → Known after c

theorem Numbered.extends_same (numbered : Numbered pool) (idents : after.idents = pool.idents)
    (created : after.created = pool.created) : Extends pool after where
  distinct := by
    rw [idents]
    exact numbered.distinct
  old := by
    rw [idents, created]
    exact numbered.old
  known := fun _ known => known.of_idents idents created

theorem Numbered.extends_append (numbered : Numbered pool)
    (idents : after.idents = pool.idents ++ [pool.created])
    (created : after.created = pool.created + 1) : Extends pool after where
  distinct := by
    rw [idents]
    refine List.nodup_append.mpr ⟨numbered.distinct, by simp, ?_⟩
    intro ident member new same equal
    rw [List.mem_singleton] at same
    have below := numbered.old ident member
    omega
  old := by
    intro ident member
    rw [idents] at member
    rw [created]
    rcases List.mem_append.mp member with before | new
    · exact Nat.lt_succ_of_lt (numbered.old ident before)
    · rw [List.mem_singleton.mp new]
      exact Nat.lt_succ_self _
  known := by
    intro c known
    refine ⟨known.nonneg, ?_, ?_⟩
    · rw [created]
      exact Nat.lt_succ_of_lt known.old
    · rw [idents]
      exact known.tracks.append (Nat.ne_of_lt known.old)

/-- `add_link` appends a client with a new identity, or none. -/
theorem Numbered.extends_addLink (numbered : Numbered pool) (ops : ClientOps κ) (ip : List UInt8)
    (port : Int32) : Extends pool (pool.addLinkLocked ops ip port).1 := by
  rcases ClientLoopPool.addLinkLocked_cases ops pool ip port with ⟨_, result⟩ |
    ⟨_, _, result⟩ | ⟨_, client, _, result⟩
  · rw [result]
    exact numbered.extends_same rfl rfl
  · rw [result]
    exact numbered.extends_same rfl rfl
  · rw [result]
    exact numbered.extends_append (by simp [ClientLoopPool.idents]) rfl

/-- A removal leaves different numbers. -/
theorem Numbered.destroy (numbered : Numbered pool) (ip : List UInt8) (port : Int32) :
    Numbered (pool.destroy ip port) := by
  cases found : pool.position (linkKey ip port) with
  | none =>
    have same : pool.destroy ip port = pool := by simp [ClientLoopPool.destroy, found]
    rwa [same]
  | some index =>
    have idents : (pool.destroy ip port).idents = pool.idents.eraseIdx index := by
      simp [ClientLoopPool.destroy, found, ClientLoopPool.idents, List.eraseIdx_map]
    have created : (pool.destroy ip port).created = pool.created := by
      simp [ClientLoopPool.destroy, found]
    refine ⟨?_, fun ident member => ?_⟩
    · rw [idents]
      exact numbered.distinct.eraseIdx index
    · rw [idents] at member
      rw [created]
      exact numbered.old ident (List.mem_of_mem_eraseIdx member)

/-- A step that removes no client keeps the invariant, if what is new is sound. -/
theorem Traced.frame (traced : s.Traced) (extended : Extends s.pool next.pool)
    (callers : ∀ caller ∈ next.callers, caller ∈ s.callers ∨ KnownCaller next.pool caller)
    (handles : ∀ h ∈ next.handles, h ∈ s.handles ∨ Known next.pool h.chosen)
    (readers : ∀ r ∈ next.readers, r ∈ s.readers ∨
      (r.used = r.chosen.ident ↔ r.chosen.moved = false))
    (attached : next.Attached) : next.Traced where
  toNumbered := extended.toNumbered
  callers := by
    intro caller member
    rcases callers caller member with before | sound
    · have sound := traced.callers caller before
      cases caller with
      | chosen args c => exact extended.known c sound
      | sending args c used => exact ⟨extended.known c sound.1, sound.2⟩
      | _ => trivial
    · exact sound
  handles := by
    intro h member
    rcases handles h member with before | known
    · exact extended.known h.chosen (traced.handles h before)
    · exact known
  readers := by
    intro r member
    rcases readers r member with before | sound
    · exact traced.readers r before
    · exact sound
  attached := attached

theorem Known.destroy (known : Known pool c) (distinct : pool.idents.Nodup) {ip : List UInt8}
    {port : Int32} {index : Nat} (found : pool.position (linkKey ip port) = some index) :
    Known (pool.destroy ip port) (c.erased index) := by
  refine ⟨known.nonneg, ?_, ?_⟩
  · have created : (pool.destroy ip port).created = pool.created := by
      simp [ClientLoopPool.destroy, found]
    rw [created]
    exact known.old
  · have tracks := known.tracks.eraseIdx distinct index
    have idents : (pool.destroy ip port).idents = pool.idents.eraseIdx index := by
      simp [ClientLoopPool.destroy, found, ClientLoopPool.idents, List.eraseIdx_map]
    rw [idents]
    exact tracks

theorem Traced.begin (traced : s.Traced) (args : WriteArgs) : (s.begin args).Traced := by
  refine traced.frame (traced.extends_same rfl rfl) ?_ (fun _ member => .inl member)
    (fun _ member => .inl member) traced.attached
  intro caller member
  rcases List.mem_append.mp member with before | new
  · exact .inl before
  · rw [List.mem_singleton.mp new]
    split <;> exact .inr trivial

theorem Traced.link (traced : s.Traced) {caller : Nat} (taken : s.link ops caller = some next) :
    next.Traced := by
  unfold PoolCalls.link at taken
  split at taken
  · rename_i args found
    have extended := traced.extends_addLink ops args.ip args.port
    split at taken
    · cases taken
    · split at taken
      · rename_i pool result
        rw [result] at extended
        cases taken
        refine traced.frame extended ?_ (fun _ member => .inl member)
          (fun _ member => .inl member) traced.attached
        intro caller member
        rcases List.mem_or_eq_of_mem_set member with before | rfl
        · exact .inl before
        · exact .inr trivial
      · rename_i pool result
        rw [result] at extended
        cases taken
        exact traced.frame extended (fun _ member => .inl (List.mem_of_mem_eraseIdx member))
          (fun _ member => .inl member) (fun _ member => .inl member) traced.attached
  · cases taken

theorem Traced.lock (traced : s.Traced) {caller : Nat} (taken : s.lock caller = some next) :
    next.Traced := by
  unfold PoolCalls.lock at taken
  split at taken
  · split at taken
    · cases taken
      refine traced.frame (traced.extends_same rfl rfl) ?_ (fun _ member => .inl member)
        (fun _ member => .inl member) traced.attached
      intro caller member
      rcases List.mem_or_eq_of_mem_set member with before | rfl
      · exact .inl before
      · exact .inr trivial
    · cases taken
      exact traced.frame (traced.extends_same rfl rfl)
        (fun _ member => .inl (List.mem_of_mem_eraseIdx member)) (fun _ member => .inl member)
        (fun _ member => .inl member) traced.attached
  · cases taken

theorem Traced.probe (traced : s.Traced) {caller : Nat} (taken : s.probe ops caller = some next) :
    next.Traced := by
  unfold PoolCalls.probe at taken
  split at taken
  · rename_i args rounds found
    simp only [Option.bind_eq_bind, Option.bind_eq_some_iff, Option.pure_def,
      Option.some.injEq] at taken
    obtain ⟨⟨index, answer, pool⟩, probed, client, chosen, rfl⟩ := taken
    have same := (ClientLoopPool.probe_eq_some probed).2.2
    have extended : Extends s.pool pool := traced.extends_same same.idents same.created
    refine traced.frame extended ?_ (fun _ member => .inl member)
      (fun _ member => .inl member) traced.attached
    intro caller member
    rcases List.mem_or_eq_of_mem_set member with before | rfl
    · exact .inl before
    · split
      · exact .inr (known_of_clientAt extended.old chosen)
      · exact .inr trivial
  · cases taken

/-- What the subscript of a write did. -/
theorem subscript_cases {caller : Nat} (taken : s.subscript caller = some next) :
    ∃ args c, s.callers[caller]? = some (.chosen args c) ∧
      (s.pool.clientAt c.i = none ∧
        next = { s.use c.ident none with callers := s.callers.eraseIdx caller } ∨
      ∃ client, s.pool.clientAt c.i = some client ∧ next = { s.use c.ident client.ident with
        callers := s.callers.set caller (.sending args c client.ident) }) := by
  unfold PoolCalls.subscript at taken
  split at taken
  · rename_i args c found
    refine ⟨args, c, found, ?_⟩
    split at taken
    · rename_i beyond
      exact .inl ⟨beyond, (Option.some.inj taken).symm⟩
    · rename_i client here
      exact .inr ⟨client, here, (Option.some.inj taken).symm⟩
  · cases taken

theorem clientRuns_idents (s : PoolCalls κ) (ident : Nat) (client : κ) :
    (s.clientRuns ident client).pool.idents = s.pool.idents := by
  simp only [PoolCalls.clientRuns, ClientLoopPool.idents, List.map_map]
  apply List.map_congr_left
  intro c member
  simp only [Function.comp_apply]
  split <;> rfl

/-- What the write to the client did. -/
theorem send_cases {caller : Nat} (taken : s.send ops caller = some next) :
    ∃ args c used, s.callers[caller]? = some (.sending args c used) ∧
      (s.clientOf used = none ∧
        next = { s.use c.ident none with callers := s.callers.eraseIdx caller } ∨
      ∃ client r after, s.clientOf used = some client ∧
        ops.write client.client args.sendData args.sendSize = some (r, after) ∧
        next = { s.clientRuns used after with
          callers := s.callers.eraseIdx caller
          handles := s.handles ++ [{ chosen := c, r := r }] }) := by
  unfold PoolCalls.send at taken
  split at taken
  · rename_i args c used found
    refine ⟨args, c, used, found, ?_⟩
    split at taken
    · rename_i gone
      exact .inl ⟨gone, (Option.some.inj taken).symm⟩
    · rename_i client there
      obtain ⟨⟨r, after⟩, written, same⟩ := Option.bind_eq_some_iff.mp taken
      exact .inr ⟨client, r, after, there, written, (Option.some.inj same).symm⟩
  · cases taken

/-- What the subscript of a read did. -/
theorem read_cases {handle : Nat} (taken : s.read handle = some next) :
    ∃ h, s.handles[handle]? = some h ∧
      (s.pool.clientAt h.chosen.i = none ∧ next = s.use h.chosen.ident none ∨
      ∃ client, s.pool.clientAt h.chosen.i = some client ∧ next = { s with
        readers := s.readers ++
          [{ chosen := h.chosen, used := client.ident, r := h.r, waits := false }] }) := by
  simp only [PoolCalls.read, Option.bind_eq_bind, Option.bind_eq_some_iff, Option.pure_def] at taken
  obtain ⟨h, found, rest⟩ := taken
  refine ⟨h, found, ?_⟩
  split at rest
  · rename_i beyond
    exact .inl ⟨beyond, (Option.some.inj rest).symm⟩
  · rename_i client here
    exact .inr ⟨client, here, (Option.some.inj rest).symm⟩

/-- What a read did that looked for its request. -/
theorem find_cases {reader : Nat} (taken : s.find ops reader = some next) :
    ∃ r, s.readers[reader]? = some r ∧
      (s.clientOf r.used = none ∧
        next = { s.use r.chosen.ident none with readers := s.readers.eraseIdx reader } ∨
      ∃ c, s.clientOf r.used = some c ∧
        (ops.has c.client r.r = true ∧ next = { s.use r.chosen.ident r.used with
          readers := s.readers.set reader { r with waits := true } } ∨
        ops.has c.client r.r = false ∧
          next = { s with readers := s.readers.eraseIdx reader })) := by
  simp only [PoolCalls.find, Option.bind_eq_bind, Option.bind_eq_some_iff, Option.pure_def] at taken
  obtain ⟨r, found, taken⟩ := taken
  refine ⟨r, found, ?_⟩
  split at taken
  · cases taken
  · split at taken
    · rename_i gone
      exact .inl ⟨gone, (Option.some.inj taken).symm⟩
    · rename_i c there
      refine .inr ⟨c, there, ?_⟩
      split at taken
      · rename_i has
        exact .inl ⟨has, (Option.some.inj taken).symm⟩
      · rename_i lacks
        exact .inr ⟨by simpa using lacks, (Option.some.inj taken).symm⟩

theorem leave_cases {reader : Nat} (taken : s.leave reader = some next) :
    ∃ r, s.readers[reader]? = some r ∧
      ((s.clientOf r.used).isSome = true ∧
        next = { s with readers := s.readers.eraseIdx reader } ∨
      (s.clientOf r.used).isSome = false ∧
        next = { s.use r.chosen.ident none with readers := s.readers.eraseIdx reader }) := by
  simp only [PoolCalls.leave, Option.bind_eq_bind, Option.bind_eq_some_iff,
    Option.pure_def] at taken
  obtain ⟨r, found, taken⟩ := taken
  refine ⟨r, found, ?_⟩
  split at taken
  · split at taken
    · rename_i there
      exact .inl ⟨there, (Option.some.inj taken).symm⟩
    · rename_i gone
      exact .inr ⟨by simpa using gone, (Option.some.inj taken).symm⟩
  · cases taken

theorem attached_use (attached : s.Attached) {chosen : Nat} {used : Option Nat}
    (uses : next.uses = (s.use chosen used).uses) : next.Attached ↔ used = some chosen := by
  simp only [Attached, uses, PoolCalls.use, List.mem_append, List.mem_singleton]
  constructor
  · intro all
    exact all _ (.inr rfl)
  · rintro used other (before | same)
    · exact attached other before
    · rw [same]
      exact used

theorem attached_of_uses (attached : s.Attached) (uses : next.uses = s.uses) : next.Attached := by
  intro u member
  rw [uses] at member
  exact attached u member

theorem Traced.subscript (traced : s.Traced) {caller : Nat} (taken : s.subscript caller = some next)
    (attached : next.Attached) : next.Traced := by
  obtain ⟨args, c, found, ⟨_, rfl⟩ | ⟨client, here, rfl⟩⟩ := subscript_cases taken
  · exact traced.frame (traced.extends_same rfl rfl)
      (fun _ member => .inl (List.mem_of_mem_eraseIdx member)) (fun _ member => .inl member)
      (fun _ member => .inl member) attached
  · have known : Known s.pool c := traced.callers _ (List.mem_of_getElem? found)
    refine traced.frame (traced.extends_same rfl rfl) ?_ (fun _ member => .inl member)
      (fun _ member => .inl member) attached
    intro caller member
    rcases List.mem_or_eq_of_mem_set member with before | rfl
    · exact .inl before
    · have shows := known.shows_iff
      rw [here, Option.map_some, Option.some.injEq] at shows
      exact .inr ⟨known, shows.mpr⟩

/-- A subscript shows the chosen client exactly when no removal came between. -/
theorem Traced.subscript_iff (traced : s.Traced) {caller : Nat}
    (taken : s.subscript caller = some next) :
    next.Attached ↔ s.StaysPut ops (.subscript caller) next := by
  obtain ⟨args, c, found, rest⟩ := subscript_cases taken
  have known : Known s.pool c := traced.callers _ (List.mem_of_getElem? found)
  have stays : s.StaysPut ops (.subscript caller) next ↔
      (s.pool.clientAt c.i).isSome = true ∧ c.moved = false := by
    simp [StaysPut, FindsClient, found, PoolCaller.choice, ClientLoopPool.clientAt, known.nonneg]
  rw [stays]
  rcases rest with ⟨beyond, rfl⟩ | ⟨client, here, rfl⟩
  · refine Iff.trans (attached_use traced.attached rfl) ?_
    simp [beyond]
  · refine Iff.trans (attached_use traced.attached rfl) ?_
    rw [← known.shows_iff, here]
    simp

theorem Traced.send (traced : s.Traced) {caller : Nat} (taken : s.send ops caller = some next)
    (attached : next.Attached) : next.Traced := by
  obtain ⟨args, c, used, found, ⟨_, rfl⟩ | ⟨client, r, after, _, _, rfl⟩⟩ := send_cases taken
  · exact traced.frame (traced.extends_same rfl rfl)
      (fun _ member => .inl (List.mem_of_mem_eraseIdx member)) (fun _ member => .inl member)
      (fun _ member => .inl member) attached
  · obtain ⟨known, _⟩ : Known s.pool c ∧ _ := traced.callers _ (List.mem_of_getElem? found)
    have extended : Extends s.pool (s.clientRuns used after).pool :=
      traced.extends_same (clientRuns_idents s used after) rfl
    refine traced.frame extended (fun _ member => .inl (List.mem_of_mem_eraseIdx member)) ?_
      (fun _ member => .inl member) attached
    intro h member
    rcases List.mem_append.mp member with before | new
    · exact .inl before
    · rw [List.mem_singleton.mp new]
      exact .inr (extended.known c known)

/-- The write itself goes to the client of its subscript, unless that has ended. -/
theorem Traced.send_iff (traced : s.Traced) {caller : Nat}
    (taken : s.send ops caller = some next) :
    next.Attached ↔ s.StaysPut ops (.send caller) next := by
  obtain ⟨args, c, used, found, rest⟩ := send_cases taken
  have stays : s.StaysPut ops (.send caller) next ↔ (s.clientOf used).isSome = true := by
    simp [StaysPut, FindsClient, found, PoolCaller.client]
  rw [stays]
  rcases rest with ⟨gone, rfl⟩ | ⟨client, r, after, there, _, rfl⟩
  · refine Iff.trans (attached_use traced.attached rfl) ?_
    simp [gone]
  · exact iff_of_true (attached_of_uses traced.attached rfl) (by simp [there])

theorem Traced.read (traced : s.Traced) {handle : Nat} (taken : s.read handle = some next)
    (attached : next.Attached) : next.Traced := by
  obtain ⟨h, found, ⟨_, rfl⟩ | ⟨client, here, rfl⟩⟩ := read_cases taken
  · exact traced.frame (traced.extends_same rfl rfl) (fun _ member => .inl member)
      (fun _ member => .inl member) (fun _ member => .inl member) attached
  · have known := traced.handles h (List.mem_of_getElem? found)
    refine traced.frame (traced.extends_same rfl rfl) (fun _ member => .inl member)
      (fun _ member => .inl member) ?_ attached
    intro r member
    rcases List.mem_append.mp member with before | new
    · exact .inl before
    · rw [List.mem_singleton.mp new]
      have shows := known.shows_iff
      rw [here, Option.map_some, Option.some.injEq] at shows
      exact .inr shows

/-- The subscript of a read is no use yet, unless it lies outside the vector. -/
theorem Traced.read_iff (traced : s.Traced) {handle : Nat} (taken : s.read handle = some next) :
    next.Attached ↔ s.StaysPut ops (.read handle) next := by
  obtain ⟨h, found, rest⟩ := read_cases taken
  have known := traced.handles h (List.mem_of_getElem? found)
  have stays : s.StaysPut ops (.read handle) next ↔ s.pool.clientAt h.chosen.i ≠ none := by
    simp [StaysPut, FindsClient, found, ClientLoopPool.clientAt, known.nonneg]
  rw [stays]
  rcases rest with ⟨beyond, rfl⟩ | ⟨client, here, rfl⟩
  · refine Iff.trans (attached_use traced.attached rfl) ?_
    simp [beyond]
  · exact iff_of_true (attached_of_uses traced.attached rfl) (by simp [here])

theorem Traced.find (traced : s.Traced) {reader : Nat} (taken : s.find ops reader = some next)
    (attached : next.Attached) : next.Traced := by
  have erased : ∀ r ∈ s.readers.eraseIdx reader, r ∈ s.readers := fun _ => List.mem_of_mem_eraseIdx
  obtain ⟨r, found, ⟨_, rfl⟩ | ⟨c, _, ⟨_, rfl⟩ | ⟨_, rfl⟩⟩⟩ := find_cases taken
  · exact traced.frame (traced.extends_same rfl rfl) (fun _ member => .inl member)
      (fun _ member => .inl member) (fun _ member => .inl (erased _ member)) attached
  · refine traced.frame (traced.extends_same rfl rfl) (fun _ member => .inl member)
      (fun _ member => .inl member) ?_ attached
    intro other member
    rcases List.mem_or_eq_of_mem_set member with before | rfl
    · exact .inl before
    · exact .inr (traced.readers r (List.mem_of_getElem? found))
  · exact traced.frame (traced.extends_same rfl rfl) (fun _ member => .inl member)
      (fun _ member => .inl member) (fun _ member => .inl (erased _ member)) attached

/-- A read uses the chosen client exactly when that has not ended and the subscript
came before any removal, or it finds no request. -/
theorem Traced.find_iff (traced : s.Traced) {reader : Nat}
    (taken : s.find ops reader = some next) :
    next.Attached ↔ s.StaysPut ops (.find reader) next := by
  obtain ⟨r, found, rest⟩ := find_cases taken
  have straight := traced.readers r (List.mem_of_getElem? found)
  have stays : s.StaysPut ops (.find reader) next ↔ (s.clientOf r.used).isSome = true ∧
      ∀ c, s.clientOf r.used = some c → r.chosen.moved = false ∨ ops.has c.client r.r = false := by
    simp [StaysPut, FindsClient, found]
  rw [stays]
  rcases rest with ⟨gone, rfl⟩ | ⟨c, there, ⟨has, rfl⟩ | ⟨lacks, rfl⟩⟩
  · refine Iff.trans (attached_use traced.attached rfl) ?_
    simp [gone]
  · refine Iff.trans (attached_use traced.attached rfl) ?_
    simp [there, has, straight]
  · exact iff_of_true (attached_of_uses traced.attached rfl) (by simp [there, lacks])

theorem Traced.leave (traced : s.Traced) {reader : Nat} (taken : s.leave reader = some next)
    (attached : next.Attached) : next.Traced := by
  obtain ⟨r, found, ⟨_, rfl⟩ | ⟨_, rfl⟩⟩ := leave_cases taken
  · exact traced.frame (traced.extends_same rfl rfl) (fun _ member => .inl member)
      (fun _ member => .inl member) (fun _ member => .inl (List.mem_of_mem_eraseIdx member))
      attached
  · exact traced.frame (traced.extends_same rfl rfl) (fun _ member => .inl member)
      (fun _ member => .inl member) (fun _ member => .inl (List.mem_of_mem_eraseIdx member))
      attached

/-- A read that has waited returns in time exactly when its client has not ended. -/
theorem Traced.leave_iff (traced : s.Traced) {reader : Nat} (taken : s.leave reader = some next) :
    next.Attached ↔ s.StaysPut ops (.leave reader) next := by
  obtain ⟨r, found, rest⟩ := leave_cases taken
  have stays : s.StaysPut ops (.leave reader) next ↔ (s.clientOf r.used).isSome = true := by
    simp [StaysPut, FindsClient, found]
  rw [stays]
  rcases rest with ⟨there, rfl⟩ | ⟨gone, rfl⟩
  · exact iff_of_true (attached_of_uses traced.attached rfl) there
  · refine Iff.trans (attached_use traced.attached rfl) ?_
    simp [gone]

theorem Traced.endClient (traced : s.Traced) {ident : Nat}
    (taken : s.endClient ident = some next) : next.Traced := by
  unfold PoolCalls.endClient at taken
  split at taken
  · cases taken
    exact ⟨traced.toNumbered, traced.callers, traced.handles, traced.readers, traced.attached⟩
  · cases taken

theorem Traced.destroy (traced : s.Traced) {ip : List UInt8} {port : Int32}
    (taken : s.destroy ip port = some next) : next.Traced := by
  unfold PoolCalls.destroy at taken
  split at taken
  · cases taken
  · split at taken
    · cases taken
      exact traced
    · rename_i index found
      cases taken
      refine ⟨traced.toNumbered.destroy ip port, ?_, ?_, traced.readers, traced.attached⟩
      · intro caller member
        obtain ⟨old, before, rfl⟩ := List.mem_map.mp member
        have sound := traced.callers old before
        cases old with
        | chosen args c => exact Known.destroy sound traced.distinct found
        | sending args c used =>
          refine ⟨Known.destroy sound.1 traced.distinct found, fun still => sound.2 ?_⟩
          exact (Bool.or_eq_false_iff.mp still).1
        | _ => trivial
      · intro h member
        obtain ⟨old, before, same⟩ := List.mem_map.mp member
        rw [← same]
        exact (traced.handles old before).destroy traced.distinct found

theorem Traced.setCMaxNum (traced : s.Traced) (v : Int32) :
    Traced { s with pool := s.pool.setCMaxNum v } := by
  have extended : Extends s.pool (s.pool.setCMaxNum v) := by
    unfold ClientLoopPool.setCMaxNum
    split <;> exact traced.extends_same rfl rfl
  exact traced.frame extended (fun _ member => .inl member) (fun _ member => .inl member)
    (fun _ member => .inl member) traced.attached

theorem Traced.clientRuns (traced : s.Traced) (ident : Nat) (client : κ) :
    (s.clientRuns ident client).Traced :=
  traced.frame (traced.extends_same (clientRuns_idents s ident client) rfl)
    (fun _ member => .inl member) (fun _ member => .inl member)
    (fun _ member => .inl member) traced.attached

variable {event : PoolEvent κ}

/-- A step that uses only chosen clients keeps the invariant. -/
theorem Traced.step (traced : s.Traced) (taken : s.step ops event = some next)
    (attached : next.Attached) : next.Traced := by
  cases event with
  | write args =>
    cases taken
    exact traced.begin args
  | addLink caller => exact traced.link taken
  | lock caller => exact traced.lock taken
  | probe caller => exact traced.probe taken
  | subscript caller => exact traced.subscript taken attached
  | send caller => exact traced.send taken attached
  | read handle => exact traced.read taken attached
  | find reader => exact traced.find taken attached
  | leave reader => exact traced.leave taken attached
  | destroy ip port => exact traced.destroy taken
  | ended ident => exact traced.endClient taken
  | setCMaxNum v =>
    cases taken
    exact traced.setCMaxNum v
  | clientRuns ident client =>
    cases taken
    exact traced.clientRuns ident client

/-- Only sends and reads use clients, and they use the chosen ones exactly when
they stay put. -/
theorem Traced.step_iff (traced : s.Traced) (taken : s.step ops event = some next) :
    next.Attached ↔ s.StaysPut ops event next := by
  cases event with
  | write args =>
    cases taken
    exact iff_of_true (traced.begin args).attached ⟨trivial, trivial⟩
  | addLink caller => exact iff_of_true (traced.link taken).attached ⟨trivial, trivial⟩
  | lock caller => exact iff_of_true (traced.lock taken).attached ⟨trivial, trivial⟩
  | probe caller => exact iff_of_true (traced.probe taken).attached ⟨trivial, trivial⟩
  | subscript caller => exact traced.subscript_iff taken
  | send caller => exact traced.send_iff taken
  | read handle => exact traced.read_iff taken
  | find reader => exact traced.find_iff taken
  | leave reader => exact traced.leave_iff taken
  | destroy ip port => exact iff_of_true (traced.destroy taken).attached ⟨trivial, trivial⟩
  | ended ident => exact iff_of_true (traced.endClient taken).attached ⟨trivial, trivial⟩
  | setCMaxNum v =>
    cases taken
    exact iff_of_true (traced.setCMaxNum v).attached ⟨trivial, trivial⟩
  | clientRuns ident client =>
    cases taken
    exact iff_of_true (traced.clientRuns ident client).attached ⟨trivial, trivial⟩

theorem traced_new : ({} : PoolCalls κ).Traced where
  distinct := by simp [ClientLoopPool.idents]
  old := by simp [ClientLoopPool.idents]
  callers := by simp
  handles := by simp
  readers := by simp
  attached := by simp [Attached]

/-- In every run of a new pool, each write goes to the client chosen for it and
each read uses the client of its handle or fails, exactly when every step stays
put. -/
theorem attached_iff_staysPut (ops : ClientOps κ) (events : List (PoolEvent κ)) :
    (machine ops).Always Attached {} events ↔ (machine ops).AllSteps (StaysPut ops) {} events := by
  apply Machine.always_iff Traced
  · intro s traced
    exact traced.attached
  · intro before event after traced taken
    exact traced.step_iff taken
  · intro before event after traced taken stays
    exact traced.step taken ((traced.step_iff taken).mpr stays)
  · exact traced_new

/-- One whole call of `write` with nothing between its sections. -/
def writeEvents (ip : String) : List (PoolEvent ClientLoop) :=
  [.write { ip := ip.toUTF8.toList, port := 8080, sendData := [some 7], sendSize := 1 },
    .addLink 0, .lock 0, .probe 0, .subscript 0, .send 0]

/-- An endpoint is written to and destroyed, and its client ends before the read of
its handle does. -/
def endedEarly : List (PoolEvent ClientLoop) :=
  writeEvents "10.0.0.1" ++
    [.read 0, .find 0, .destroy "10.0.0.1".toUTF8.toList 8080, .ended 0, .leave 0]

/-- The read returns from a client that has been deleted. -/
theorem endedEarly_reads_deleted :
    ¬ (machine (ClientLoop.poolOps .littleEndian fun _ => true)).Always Attached {} endedEarly := by
  intro always
  have outcome : ((machine (ClientLoop.poolOps .littleEndian fun _ => true)).run {} endedEarly).map
      uses = some [{ chosen := 0, used := some 0 }, { chosen := 0, used := some 0 },
        { chosen := 0, used := none }] := by
    decide +kernel
  obtain ⟨final, reached, used⟩ := Option.map_eq_some_iff.mp outcome
  have attached := (always.final reached) { chosen := 0, used := none } (by simp [used])
  simp at attached

/-- Three endpoints are written to, the first is destroyed, and the handle of the
second is read. -/
def shifted : List (PoolEvent ClientLoop) :=
  writeEvents "10.0.0.1" ++ writeEvents "10.0.0.2" ++ writeEvents "10.0.0.3" ++
    [.destroy "10.0.0.1".toUTF8.toList 8080, .read 1, .find 0]

/-- The read waits on the third client, whose first request has the same number. -/
theorem shifted_reads_other :
    ¬ (machine (ClientLoop.poolOps .littleEndian fun _ => true)).Always Attached {} shifted := by
  intro always
  have outcome : ((machine (ClientLoop.poolOps .littleEndian fun _ => true)).run {} shifted).map
      uses = some [{ chosen := 0, used := some 0 }, { chosen := 1, used := some 1 },
        { chosen := 2, used := some 2 }, { chosen := 1, used := some 2 }] := by
    decide +kernel
  obtain ⟨final, reached, used⟩ := Option.map_eq_some_iff.mp outcome
  have attached := (always.final reached) { chosen := 1, used := some 2 } (by simp [used])
  simp at attached

end PoolCalls

end RpcLoop
