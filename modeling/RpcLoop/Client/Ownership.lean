import RpcLoop.Client.Placement

/-! Who keeps the message of an outstanding write alive. The completion handler
holds no pointer to it. What does is a node of the queue, an argument bound into
a posted handler, or a caller that has not left `write` yet. -/

namespace RpcLoop

open Foundation Asio Shared ClientLoop

/-- A client with the calls of `write` that have posted their handler and are
about to return. -/
structure OwningClient where
  loop : ClientLoop
  returning : List Outgoing

namespace OwningClient

inductive Event where
  | loop (event : ClientLoop.Event)
  | ret (caller : Nat)

def start (csq : ClientSendQueue) : OwningClient where
  loop := .start csq
  returning := []

/-- The message of a call that posts its handler. -/
def posting (s : ClientLoop) : ClientLoop.Event → Option Outgoing
  | .post caller => s.writers[caller]?.map WriteCall.msg
  | _ => none

def step (layout : IntLayout) (s : OwningClient) : Event → Option OwningClient
  | .loop event => do
    let next ← s.loop.step layout event
    return { loop := next, returning := s.returning ++ (posting s.loop event).toList }
  | .ret caller => do
    let _ ← s.returning[caller]?
    return { s with returning := s.returning.eraseIdx caller }

def machine (layout : IntLayout) : Machine OwningClient Event where
  step := step layout

/-- The messages that callers inside `write` hold. -/
def inside (s : OwningClient) : List Outgoing := s.loop.writers.map WriteCall.msg ++ s.returning

/-- The live pointers to messages. -/
def owners (s : OwningClient) : List Outgoing :=
  s.loop.writeMsgQueue.nodes ++ s.loop.posted.filterMap Posted.bound ++ s.inside

/-- One of the pointers is to the message. -/
def Held (pointers : List Outgoing) (m : Outgoing) : Prop :=
  ∃ owner ∈ pointers, owner.addr = m.addr

/-- Every message being written has an owner. -/
def OwnsMessages (s : OwningClient) : Prop := ∀ op ∈ s.loop.link.writes, Held s.owners op.what

/-- With a queue, a message is popped only while the callers of all other
messages being written are inside `write`, and a caller leaves only if its
message is not being written or was popped last. Without one, a caller is inside
`write` from before its message is sent until the write's handler has run. -/
structure KeepsOwner (s : OwningClient) (event : Event) (_ : OwningClient) : Prop where
  sends : ∀ inner m, event = .loop inner → sends s.loop inner = some m →
    match s.loop.csq with
    | .on => ∀ op ∈ otherWrites s.loop inner, Held s.inside op.what
    | .off => Held s.inside m
  returns : ∀ caller m, event = .ret caller → s.returning[caller]? = some m →
    ∀ op ∈ s.loop.link.writes, op.what.addr = m.addr →
      ∃ last, s.loop.writeMsgQueue.head = some last ∧ last.addr = m.addr

instance (pointers : List Outgoing) (m : Outgoing) : Decidable (Held pointers m) :=
  inferInstanceAs (Decidable (∃ owner ∈ pointers, owner.addr = m.addr))

/-- A step that neither sends nor lets a caller go keeps every owner. -/
theorem keepsOwner_of_quiet {s next : OwningClient} {inner : ClientLoop.Event}
    (quiet : sends s.loop inner = none) : KeepsOwner s (.loop inner) next where
  sends other m same sending := by
    cases same
    cases quiet.symm.trans sending
  returns _ _ same := by cases same

/-- What a step that sends asks of the callers, as a test. -/
def keepsSent (s : OwningClient) (inner : ClientLoop.Event) : Bool :=
  (sends s.loop inner).all fun m =>
    match s.loop.csq with
    | .on => (otherWrites s.loop inner).all fun op => decide (Held s.inside op.what)
    | .off => decide (Held s.inside m)

theorem keepsSent_of_quiet {s : OwningClient} {inner : ClientLoop.Event}
    (quiet : sends s.loop inner = none) : s.keepsSent inner = true := by
  simp [keepsSent, quiet]

theorem keepsOwner_loop {s next : OwningClient} {inner : ClientLoop.Event} :
    KeepsOwner s (.loop inner) next ↔ s.keepsSent inner = true := by
  cases sending : ClientLoop.sends s.loop inner with
  | none => exact ⟨fun _ => by simp [keepsSent, sending], fun _ => keepsOwner_of_quiet sending⟩
  | some m =>
    constructor
    · intro keeps
      have asked := keeps.sends inner m rfl sending
      cases mode : s.loop.csq with
      | on => simpa [keepsSent, sending, mode] using asked
      | off => simpa [keepsSent, sending, mode] using asked
    · intro test
      refine ⟨?_, nofun⟩
      rintro _ other ⟨⟩ again
      cases sending.symm.trans again
      cases mode : s.loop.csq with
      | on => simpa [keepsSent, sending, mode] using test
      | off => simpa [keepsSent, sending, mode] using test

/-- What a caller that leaves asks of the writes, as a test. -/
def keepsReturned (s : OwningClient) (caller : Nat) : Bool :=
  s.returning[caller]?.all fun m => s.loop.link.writes.all fun op =>
    op.what.addr != m.addr || s.loop.writeMsgQueue.head.any fun last => last.addr == m.addr

private theorem keepsOwner_ret {s next : OwningClient} {caller : Nat} :
    KeepsOwner s (.ret caller) next ↔ s.keepsReturned caller = true := by
  have asked : KeepsOwner s (.ret caller) next ↔ ∀ m, s.returning[caller]? = some m →
      ∀ op ∈ s.loop.link.writes, op.what.addr = m.addr →
        ∃ last, s.loop.writeMsgQueue.head = some last ∧ last.addr = m.addr := by
    constructor
    · exact fun keeps m found => keeps.returns caller m rfl found
    · intro leaves
      constructor
      · intro inner m same
        cases same
      · intro other m same found
        cases same
        exact leaves m found
  rw [asked]
  cases found : s.returning[caller]? with
  | none => simp [keepsReturned, found]
  | some m =>
    simp only [keepsReturned, found, Option.all_some, List.all_eq_true, Bool.or_eq_true,
      bne_iff_ne, ne_eq, Option.any_eq_true, beq_iff_eq, Option.some.injEq, forall_eq']
    constructor
    · intro leaves op member
      by_cases same : op.what.addr = m.addr
      · exact .inr (leaves op member same)
      · exact .inl same
    · intro test op member addr
      exact (test op member).resolve_left fun different => different addr

instance (s : OwningClient) (event : Event) (next : OwningClient) :
    Decidable (KeepsOwner s event next) :=
  match event with
  | .loop inner => decidable_of_iff (s.keepsSent inner = true) keepsOwner_loop.symm
  | .ret caller => decidable_of_iff (s.keepsReturned caller = true) keepsOwner_ret.symm

/-- How many callers inside `write` hold the message at an address. -/
def callers (s : OwningClient) (a : Ptr) : Nat :=
  refs (some ∘ WriteCall.msg) s.loop.writers a + refs some s.returning a

/-- What such runs keep. -/
structure Owning (s : OwningClient) : Prop where
  placed : Placed s.loop
  single : ∀ a, s.callers a ≤ 1
  old : ∀ a, 0 < s.callers a → a < s.loop.allocated
  owns : OwnsMessages s

variable {layout : IntLayout} {s next : OwningClient} {event : Event}

theorem held_iff {pointers : List Outgoing} {m : Outgoing} :
    Held pointers m ↔ 0 < refs some pointers m.addr := by
  simp only [Held, refs, List.filterMap_some, List.count_pos_iff, List.mem_map]

theorem held_inside {m : Outgoing} : Held s.inside m ↔ 0 < s.callers m.addr := by
  rw [held_iff, inside, refs_append, callers]
  simp only [refs, List.filterMap_some, List.filterMap_eq_map]

theorem Owning.initial (csq : ClientSendQueue) : Owning (start csq) where
  placed := .initial csq
  single _ := Nat.zero_le _
  old _ held := absurd held (Nat.lt_irrefl _)
  owns _ member := by cases member

/-- The owners of a message that was handed over: the dummy head or its caller. -/
theorem held_owners (placed : Placed s.loop) {m : Outgoing} (handed : m ∈ s.loop.handed) :
    Held s.owners m ↔
      (∃ last, s.loop.writeMsgQueue.head = some last ∧ last.addr = m.addr) ∨
        0 < s.callers m.addr := by
  have unposted := placed.unposted handed
  have unqueued := placed.unqueued handed
  have posted : refs some (s.loop.posted.filterMap Posted.bound) m.addr = 0 := by
    simpa only [refs, List.filterMap_some] using unposted
  have first : 0 < refs some s.loop.writeMsgQueue.head.toList m.addr ↔
      ∃ last, s.loop.writeMsgQueue.head = some last ∧ last.addr = m.addr := by
    cases s.loop.writeMsgQueue.head with
    | none => simp
    | some last => by_cases same : last.addr = m.addr <;> simp [same]
  have last : refs some s.inside m.addr = s.callers m.addr := by
    rw [inside, refs_append, callers]
    simp only [refs, List.filterMap_some, List.filterMap_eq_map]
  rw [held_iff, owners, refs_append, refs_append, SafeQueue.nodes, refs_append, ← first, posted,
    unqueued, last]
  omega

/-- Only a new call adds a caller; one that posts its handler stays inside. -/
theorem callers_step {inner : ClientLoop.Event} {loop : ClientLoop}
    (transition : Transition layout s.loop inner loop) :
    (∀ a, callers { loop := loop, returning := s.returning ++ (posting s.loop inner).toList } a =
      s.callers a) ∨
    (∀ a, callers { loop := loop, returning := s.returning ++ (posting s.loop inner).toList } a =
      s.callers a + [s.loop.allocated].count a) ∧ s.loop.allocated < loop.allocated := by
  simp only [callers]
  cases transition with
  | begun msg msgL res built =>
    refine .inr ⟨fun a => ?_, Nat.lt_succ_self _⟩
    simp [posting, WriteCall.msg, List.count_cons]
    omega
  | pushed caller m stage mode =>
    refine .inl fun a => ?_
    have moved := refs_set (some ∘ WriteCall.msg) stage (.queued m) a
    simp [WriteCall.msg, posting] at moved ⊢
    omega
  | unqueued caller m stage mode =>
    refine .inl fun a => ?_
    have moved := refs_set (some ∘ WriteCall.msg) stage (.queued m) a
    simp [WriteCall.msg, posting] at moved ⊢
    omega
  | inserted caller m stage =>
    refine .inl fun a => ?_
    have moved := refs_set (some ∘ WriteCall.msg) stage (.inserted m s.loop.allocated) a
    simp [WriteCall.msg, posting] at moved ⊢
    omega
  | armed caller m p stage =>
    refine .inl fun a => ?_
    have moved := refs_set (some ∘ WriteCall.msg) stage (.armed m) a
    simp [WriteCall.msg, posting] at moved ⊢
    omega
  | returned caller m stage =>
    refine .inl fun a => ?_
    have moved := refs_eraseIdx (some ∘ WriteCall.msg) stage a
    simp [WriteCall.msg, posting, stage] at moved ⊢
    omega
  | connectOk index op link erased start done reading erases =>
    refine .inl fun a => ?_
    rw [erases.rest]
    simp [posting]
  | erased error timer after moved erases =>
    refine .inl fun a => ?_
    rw [erases.rest]
    simp [posting]
  | _ => exact .inl fun a => by simp [posting, ClientLoop.store]

/-- The client behind a step of its loop. -/
def after (s : OwningClient) (inner : ClientLoop.Event) (loop : ClientLoop) : OwningClient where
  loop := loop
  returning := s.returning ++ (posting s.loop inner).toList

@[simp] theorem after_loop {inner : ClientLoop.Event} {loop : ClientLoop} :
    (s.after inner loop).loop = loop := rfl

theorem step_cases (taken : step layout s event = some next) :
    (∃ inner loop, event = .loop inner ∧ Transition layout s.loop inner loop ∧
      next = s.after inner loop) ∨
    ∃ caller m, event = .ret caller ∧ s.returning[caller]? = some m ∧
      next = { s with returning := s.returning.eraseIdx caller } := by
  cases event with
  | loop inner =>
    simp only [step, Option.bind_eq_bind, Option.bind_eq_some_iff, Option.pure_def] at taken
    obtain ⟨loop, stepped, same⟩ := taken
    exact .inl ⟨inner, loop, rfl, transition_of_step stepped, (Option.some.inj same).symm⟩
  | ret caller =>
    simp only [step, Option.bind_eq_bind, Option.bind_eq_some_iff, Option.pure_def] at taken
    obtain ⟨m, found, same⟩ := taken
    exact .inr ⟨caller, m, rfl, found, (Option.some.inj same).symm⟩

theorem callers_after {inner : ClientLoop.Event} {loop : ClientLoop}
    (transition : Transition layout s.loop inner loop) {a : Ptr} (old : a < s.loop.allocated) :
    (s.after inner loop).callers a = s.callers a := by
  rcases callers_step transition with same | ⟨more, _⟩
  · exact same a
  · refine (more a).trans ?_
    simp [Nat.ne_of_gt old]

theorem Owning.old_handed (owning : Owning s) {m : Outgoing} (handed : m ∈ s.loop.handed) :
    m.addr < s.loop.allocated :=
  owning.placed.old _ (List.mem_map_of_mem (List.mem_append_left _ handed))

theorem Owning.owns_quiet (owning : Owning s) {inner : ClientLoop.Event} {loop : ClientLoop}
    (transition : Transition layout s.loop inner loop) (quiet : sends s.loop inner = none) :
    OwnsMessages (s.after inner loop) := by
  have placed := owning.placed.step transition
  have head : loop.writeMsgQueue.head = s.loop.writeMsgQueue.head := by
    rcases head_step transition with ⟨_, same⟩ | ⟨m, sending, _⟩
    · exact same
    · cases quiet.symm.trans sending
  intro op member
  rcases writes_cases transition op member with ⟨old, known, same, _⟩ | sending
  · have before := otherWrites_subset inner old known
    have handed := owning.placed.writes old before
    apply (held_owners placed (placed.writes op member)).mpr
    rw [← same, callers_after transition (owning.old_handed handed)]
    change (∃ last, loop.writeMsgQueue.head = some last ∧ _) ∨ _
    rw [head]
    exact (held_owners owning.placed handed).mp (owning.owns old before)
  · cases quiet.symm.trans sending

theorem Owning.writes_after (owning : Owning s) {inner : ClientLoop.Event} {loop : ClientLoop}
    (transition : Transition layout s.loop inner loop) {m : Outgoing}
    (sending : sends s.loop inner = some m) :
    ∃ op : Operation Outgoing,
      loop.link.writes = otherWrites s.loop inner ++ [op] ∧ op.what = m := by
  rcases sends_cases transition owning.placed.early with
    ⟨quiet, _⟩ | ⟨other, op, sent, _, what, _, _, link⟩
  · cases quiet.symm.trans sending
  · cases sent.symm.trans sending
    exact ⟨op, by rw [link], what⟩

theorem Owning.others_handed (owning : Owning s) (inner : ClientLoop.Event) :
    ∀ op ∈ otherWrites s.loop inner, op.what ∈ s.loop.handed :=
  fun op member => owning.placed.writes op (otherWrites_subset inner op member)

theorem Owning.owned_after (owning : Owning s) {inner : ClientLoop.Event} {loop : ClientLoop}
    (transition : Transition layout s.loop inner loop) :
    ∀ op ∈ loop.link.writes, (Held (s.after inner loop).owners op.what ↔
      (∃ last, loop.writeMsgQueue.head = some last ∧ last.addr = op.what.addr) ∨
        0 < (s.after inner loop).callers op.what.addr) :=
  fun op member => held_owners (owning.placed.step transition)
    ((owning.placed.step transition).writes op member)

theorem Owning.owns_popped (owning : Owning s) {inner : ClientLoop.Event} {loop : ClientLoop}
    (transition : Transition layout s.loop inner loop) {m : Outgoing}
    (sending : sends s.loop inner = some m) (mode : s.loop.csq = .on) :
    OwnsMessages (s.after inner loop) ↔
      ∀ op ∈ otherWrites s.loop inner, Held s.inside op.what := by
  obtain ⟨op, link, what⟩ := owning.writes_after transition sending
  have others := owning.others_handed inner
  have owned := owning.owned_after transition
  obtain ⟨head, waits⟩ : loop.writeMsgQueue.head = some m ∧ m ∈ s.loop.writeMsgQueue.items := by
    rcases head_step transition with ⟨quiet, _⟩ | ⟨other, sent, popped | posted⟩
    · cases quiet.symm.trans sending
    · cases sent.symm.trans sending
      exact popped
    · exact absurd posted (owning.placed.queued mode other)
  have apart : ∀ op ∈ otherWrites s.loop inner, m.addr ≠ op.what.addr := by
    intro op member same
    have there := refs_pos (f := some) waits rfl
    rw [same, owning.placed.unqueued (others op member)] at there
    exact Nat.lt_irrefl _ there
  constructor
  · intro owns other member
    have written : other ∈ loop.link.writes := by simp [link, member]
    have held := (owned other written).mp (owns other written)
    rw [callers_after transition (owning.old_handed (others other member))] at held
    rcases held with ⟨last, same, addr⟩ | called
    · cases head.symm.trans same
      exact absurd addr (apart other member)
    · exact held_inside.mpr called
  · intro called other member
    apply (owned other member).mpr
    change other ∈ loop.link.writes at member
    rw [link] at member
    rcases List.mem_append.mp member with old | new
    · rw [callers_after transition (owning.old_handed (others other old))]
      exact .inr (held_inside.mp (called other old))
    · rw [List.mem_singleton.mp new, what]
      exact .inl ⟨m, head, rfl⟩

theorem Owning.owns_posted (owning : Owning s) {inner : ClientLoop.Event} {loop : ClientLoop}
    (transition : Transition layout s.loop inner loop) {m : Outgoing}
    (sending : sends s.loop inner = some m) (mode : s.loop.csq = .off) :
    OwnsMessages (s.after inner loop) ↔ Held s.inside m := by
  obtain ⟨op, link, what⟩ := owning.writes_after transition sending
  have others := owning.others_handed inner
  have owned := owning.owned_after transition
  have head : loop.writeMsgQueue.head = none := by
    have empty := (queue_off mode (owning.placed.direct mode) transition).2
    simpa using (List.append_eq_nil_iff.mp empty).1
  have posted : .doWriteMsg m ∈ s.loop.posted := by
    rcases head_step transition with ⟨quiet, _⟩ | ⟨other, sent, ⟨popped, _⟩ | posted⟩
    · cases quiet.symm.trans sending
    · cases head.symm.trans popped
    · cases sent.symm.trans sending
      exact posted
  have old : m.addr < s.loop.allocated := by
    apply owning.placed.old
    have waits : m ∈ s.loop.onTheWay := by
      simp only [onTheWay, mode]
      exact List.mem_append_left _ (List.mem_filterMap.mpr ⟨_, posted, rfl⟩)
    exact List.mem_map_of_mem (List.mem_append_right _ waits)
  simp only [head, reduceCtorEq, false_and, exists_false, false_or] at owned
  constructor
  · intro owns
    have written : op ∈ loop.link.writes := by simp [link]
    have held := (owned op written).mp (owns op written)
    rw [what, callers_after transition old] at held
    exact held_inside.mpr held
  · intro called other member
    apply (owned other member).mpr
    change other ∈ loop.link.writes at member
    rw [link] at member
    rcases List.mem_append.mp member with known | new
    · have handed := others other known
      rw [callers_after transition (owning.old_handed handed)]
      have before := (held_owners owning.placed handed).mp
        (owning.owns other (otherWrites_subset inner other known))
      have none : s.loop.writeMsgQueue.head = none := by
        simpa using (List.append_eq_nil_iff.mp (owning.placed.direct mode)).1
      simpa [none] using before
    · rw [List.mem_singleton.mp new, what, callers_after transition old]
      exact held_inside.mp called

theorem Owning.owns_sends (owning : Owning s) {inner : ClientLoop.Event} {loop : ClientLoop}
    (transition : Transition layout s.loop inner loop) {m : Outgoing}
    (sending : sends s.loop inner = some m) :
    OwnsMessages (s.after inner loop) ↔
      match s.loop.csq with
      | .on => ∀ op ∈ otherWrites s.loop inner, Held s.inside op.what
      | .off => Held s.inside m := by
  cases mode : s.loop.csq with
  | on => exact owning.owns_popped transition sending mode
  | off => exact owning.owns_posted transition sending mode

theorem Owning.owns_ret (owning : Owning s) {caller : Nat} {m : Outgoing}
    (found : s.returning[caller]? = some m) :
    OwnsMessages { s with returning := s.returning.eraseIdx caller } ↔
      ∀ op ∈ s.loop.link.writes, op.what.addr = m.addr →
        ∃ last, s.loop.writeMsgQueue.head = some last ∧ last.addr = m.addr := by
  have fewer : ∀ a, s.callers a =
      callers { s with returning := s.returning.eraseIdx caller } a + refs some [m] a := by
    intro a
    have left := refs_eraseIdx some found a
    simp only [callers]
    omega
  have owned : ∀ op ∈ s.loop.link.writes,
      (Held (owners { s with returning := s.returning.eraseIdx caller }) op.what ↔
        (∃ last, s.loop.writeMsgQueue.head = some last ∧ last.addr = op.what.addr) ∨
          0 < callers { s with returning := s.returning.eraseIdx caller } op.what.addr) :=
    fun op member => held_owners (s := { s with returning := s.returning.eraseIdx caller })
      owning.placed (owning.placed.writes op member)
  constructor
  · intro owns op member addr
    have gone := fewer m.addr
    have single := owning.single m.addr
    simp only [refs_cons, refs_nil, Option.any_some, beq_self_eq_true, if_true] at gone
    have held := (owned op member).mp (owns op member)
    rw [addr] at held
    rcases held with last | called
    · exact last
    · omega
  · intro last op member
    apply (owned op member).mpr
    by_cases same : op.what.addr = m.addr
    · rw [same]
      exact .inl (last op member same)
    · have before := (held_owners owning.placed (owning.placed.writes op member)).mp
        (owning.owns op member)
      have kept := fewer op.what.addr
      simp only [refs_cons, refs_nil, Option.any_some, beq_iff_eq, Ne.symm same, if_false] at kept
      simpa [kept] using before

/-- A step keeps an owner of every message being written exactly when it is such. -/
theorem Owning.owns_iff (owning : Owning s) (taken : step layout s event = some next) :
    OwnsMessages next ↔ KeepsOwner s event next := by
  rcases step_cases taken with ⟨inner, loop, rfl, transition, rfl⟩ | ⟨caller, m, rfl, found, rfl⟩
  · constructor
    · intro owns
      refine ⟨?_, (fun _ _ same => by cases same)⟩
      rintro _ m ⟨⟩ sending
      exact (owning.owns_sends transition sending).mp owns
    · intro keeps
      cases sending : sends s.loop inner with
      | none => exact owning.owns_quiet transition sending
      | some m => exact (owning.owns_sends transition sending).mpr (keeps.sends _ _ rfl sending)
  · constructor
    · intro owns
      refine ⟨(fun _ _ same => by cases same), ?_⟩
      rintro _ other ⟨⟩ again
      cases found.symm.trans again
      exact (owning.owns_ret found).mp owns
    · intro keeps
      exact (owning.owns_ret found).mpr (keeps.returns _ _ rfl found)

theorem Owning.step (owning : Owning s) (taken : step layout s event = some next)
    (owns : OwnsMessages next) : Owning next := by
  rcases step_cases taken with ⟨inner, loop, rfl, transition, rfl⟩ | ⟨caller, m, rfl, found, rfl⟩
  · refine ⟨owning.placed.step transition, ?_, ?_, owns⟩
    · intro a
      rcases callers_step transition with same | ⟨more, _⟩
      · exact Nat.le_trans (Nat.le_of_eq (same a)) (owning.single a)
      · refine Nat.le_trans (Nat.le_of_eq (more a)) ?_
        by_cases new : s.loop.allocated = a
        · have none : s.callers a = 0 := Nat.eq_zero_of_not_pos fun held =>
            Nat.ne_of_lt (owning.old a held) new.symm
          simp [none, new]
        · simpa [new] using owning.single a
    · intro a held
      have later := (owning.placed.along transition).allocated_le
      rcases callers_step transition with same | ⟨more, larger⟩
      · exact Nat.lt_of_lt_of_le (owning.old a (Nat.lt_of_lt_of_eq held (same a))) later
      · by_cases new : s.loop.allocated = a
        · exact new ▸ larger
        · have count : 0 < s.callers a := by
            have total := Nat.lt_of_lt_of_eq held (more a)
            simpa [new] using total
          exact Nat.lt_of_lt_of_le (owning.old a count) later
  · have fewer : ∀ a,
        callers { s with returning := s.returning.eraseIdx caller } a ≤ s.callers a := by
      intro a
      have left := refs_eraseIdx some found a
      simp only [callers]
      omega
    refine ⟨owning.placed, ?_, ?_, owns⟩
    · exact fun a => Nat.le_trans (fewer a) (owning.single a)
    · exact fun a held => owning.old a (Nat.lt_of_lt_of_le held (fewer a))

/-- In both modes every message being written is owned throughout a run exactly
when every step of the run keeps an owner. -/
theorem ownsMessages_iff_keepsOwner (layout : IntLayout) (csq : ClientSendQueue)
    (schedule : List Event) :
    (machine layout).Always OwnsMessages (start csq) schedule ↔
      (machine layout).AllSteps KeepsOwner (start csq) schedule := by
  apply Machine.always_iff Owning
  · exact fun owning => owning.owns
  · exact fun owning taken => owning.owns_iff taken
  · exact fun owning taken keeps => owning.step taken ((owning.owns_iff taken).mpr keeps)
  · exact .initial csq

/-- A call returns before its message is sent. -/
def oneDirect : List Event :=
  (comesUp ++ wholeWrite 7).map .loop ++ [.ret 0, .loop (.runPosted 0)]

/-- Two calls return before their messages are popped one after the other. -/
def twoPopped : List Event :=
  (comesUp ++ wholeWrite 7 ++ wholeWrite 8).map .loop ++
    [.ret 0, .ret 0, .loop (.runPosted 0), .loop (.runPosted 0)]

private theorem not_always_of_run {csq : ClientSendQueue} {schedule : List Event} (a : Ptr)
    (written pointers : List Ptr) (being : a ∈ written) (lost : a ∉ pointers)
    (outcome : ((machine .littleEndian).run (start csq) schedule).map (fun s =>
      (s.loop.link.writes.map (·.what.addr), s.owners.map Outgoing.addr)) =
        some (written, pointers)) :
    ¬ (machine .littleEndian).Always OwnsMessages (start csq) schedule := by
  intro always
  obtain ⟨final, reached, same⟩ := Option.map_eq_some_iff.mp outcome
  obtain ⟨writes, owners⟩ := Prod.mk.inj same
  rw [← writes] at being
  obtain ⟨op, member, rfl⟩ := List.mem_map.mp being
  obtain ⟨owner, pointer, addr⟩ := always.final reached op member
  rw [← owners, ← addr] at lost
  exact lost (List.mem_map_of_mem pointer)

/-- Without a queue a single write loses its message, with one the first of two. -/
theorem writes_lose_message :
    ¬ (machine .littleEndian).Always OwnsMessages (start .off) oneDirect ∧
      ¬ (machine .littleEndian).Always OwnsMessages (start .on) twoPopped := by
  constructor
  · exact not_always_of_run 0 [0] [] (by decide) (by decide) (by decide +kernel)
  · exact not_always_of_run 0 [0, 2] [2] (by decide) (by decide) (by decide +kernel)

end OwningClient

end RpcLoop
