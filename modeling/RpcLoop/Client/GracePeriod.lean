import RpcLoop.Client.OwnEntries

/-! Deletion in two phases. `read` may run on any thread while `erase_msg_timer` is
between two of its accesses. Beside the program's state stand the number of
invocations and which of them marked an entry last. An invocation over different
ids visits each of them once at most, as long as no read pushes another meanwhile. -/

namespace RpcLoop

open Foundation Shared

namespace MapClient

/-- The actions of `read`, of the entries it waits for, and of `erase_msg_timer`. -/
def Event.readsOrErases : Event → Bool
  | .find _ | .lookUp _ | .mark _ | .list _ | .status _ _ | .eraseMsgTimer | .io => true
  | _ => false

end MapClient

structure GraceClient where
  client : MapClient
  invocation : Nat
  setBy : Ptr → Option Nat

namespace GraceClient

open MapClient

/-- A client with any map, list and flags whose io thread is idle; what is marked
already was marked by an earlier invocation. -/
def start (client : MapClient) : GraceClient where
  client := { client with io := .idle }
  invocation := 1
  setBy p := if (client.entries p).eraseFlag = .eraseExec then some 0 else none

/-- What the records keep of a step. -/
def record (s : GraceClient) (event : Event) (after : MapClient) : GraceClient :=
  match event, s.client.io with
  | .eraseMsgTimer, _ => { s with client := after, invocation := s.invocation + 1 }
  | .io, .state _ reqid =>
    { s with
      client := after
      setBy := match s.client.entryAt reqid with
        | some p => Function.update s.setBy p (some s.invocation)
        | none => s.setBy }
  | _, _ => { s with client := after }

variable (layout : IntLayout)

def step (s : GraceClient) (event : Event) : Option GraceClient :=
  if event.readsOrErases then (s.client.step layout event).map (s.record event) else none

def machine : Machine GraceClient Event where
  step := step layout

/-- The step takes the entry out of the map. -/
def Removes (s : GraceClient) (event : Event) (p : Ptr) : Prop :=
  event = .io ∧ ∃ i reqid, s.client.io = .exec i reqid ∧ s.client.entryAt reqid = some p

/-- An entry is removed only in an invocation later than the one that marked it. -/
def LaterInvocation (s : GraceClient) (event : Event) (_ : GraceClient) : Prop :=
  ∀ p, s.Removes event p → ∃ marking, s.setBy p = some marking ∧ marking < s.invocation

/-- An invocation begins with different ids in its list, and no read pushes an id
while one is under way. -/
def ListsOnce (s : GraceClient) (event : Event) (_ : GraceClient) : Prop :=
  match event with
  | .eraseMsgTimer => s.client.delReqidList.items.Nodup
  | .list _ => s.client.io = .idle
  | _ => True

instance (s : GraceClient) (event : Event) (next : GraceClient) :
    Decidable (ListsOnce s event next) :=
  match event with
  | .eraseMsgTimer => inferInstanceAs (Decidable s.client.delReqidList.items.Nodup)
  | .list _ => inferInstanceAs (Decidable (s.client.io = .idle))
  | .build | .subscript _ | .assign _ | .find _ | .lookUp _ | .mark _ | .header _ | .io |
    .status _ _ => isTrue trivial

/-- One invocation that nothing interrupts, up to some step. -/
def uninterrupted (steps : Nat) : List Event := .eraseMsgTimer :: List.replicate steps .io

/-- An invocation in its round `i`: the ids that are still ahead stand before those
that it has pushed again, and have not been handled; what it marked belongs to ids
that have been marked. -/
structure Visiting (s : GraceClient) (i : Nat) (handled current marked : List Int32) : Prop where
  round : handled.length = i
  apart : ∃ ahead again, s.client.delReqidList.items = ahead ++ again ∧ again.length ≤ i ∧
    (handled ++ current ++ ahead).Nodup
  marks : ∀ id p, s.client.entryAt id = some p → s.setBy p = some s.invocation → id ∈ marked

/-- Where an invocation is. -/
def Visits (s : GraceClient) : IoTask → Prop
  | .idle => True
  | .headFound _ | .headSet _ => False
  | .erasing i => ∃ handled, s.Visiting i handled [] handled
  | .exec i reqid => (∃ handled, s.Visiting i handled [reqid] handled) ∧
    ∀ p, s.client.entryAt reqid = some p → (s.setBy p).isSome
  | .pushing i reqid => ∃ handled, s.Visiting i handled [reqid] (handled ++ [reqid])
  | .popped i reqid | .found i reqid | .notExec i reqid | .state i reqid =>
    ∃ handled, s.Visiting i handled [reqid] handled

/-- What such runs keep. -/
structure Grace (s : GraceClient) : Prop where
  own : s.client.OwnEntries
  known : ∀ p marking, s.setBy p = some marking → marking ≤ s.invocation
  marked : ∀ p, (s.client.entries p).eraseFlag = .eraseExec → (s.setBy p).isSome
  visits : s.Visits s.client.io

variable {layout : IntLayout} {s next : GraceClient} {event : Event} {after : MapClient}
  {i : Nat} {reqid : Int32} {handled current marked : List Int32}

theorem Grace.start {client : MapClient} (own : client.OwnEntries) : Grace (start client) where
  own := own
  known p marking set := by
    simp only [GraceClient.start] at set ⊢
    split at set <;> cases set
    exact Nat.zero_le _
  marked p flag := by
    have before : (client.entries p).eraseFlag = .eraseExec := flag
    simp [GraceClient.start, before]
  visits := trivial

/-- A step that leaves the list alone and adds no entry. -/
theorem Visiting.keep (visiting : s.Visiting i handled current marked)
    (items : after.delReqidList.items = s.client.delReqidList.items)
    (entry : ∀ id p, after.entryAt id = some p → s.client.entryAt id = some p) :
    Visiting { s with client := after } i handled current marked where
  round := visiting.round
  apart := by
    obtain ⟨ahead, again, split, few, nodup⟩ := visiting.apart
    exact ⟨ahead, again, items.trans split, few, nodup⟩
  marks id p found set := visiting.marks id p (entry id p found) set

theorem Visiting.dropped (visiting : s.Visiting i handled [reqid] handled)
    (items : after.delReqidList.items = s.client.delReqidList.items)
    (entry : ∀ id p, after.entryAt id = some p → s.client.entryAt id = some p) :
    Visiting { s with client := after } (i + 1) (handled ++ [reqid]) [] (handled ++ [reqid]) where
  round := by simp [visiting.round]
  apart := by
    obtain ⟨ahead, again, split, few, nodup⟩ := visiting.apart
    exact ⟨ahead, again, items.trans split, Nat.le_succ_of_le few, by simpa using nodup⟩
  marks id p found set := List.mem_append_left _ (visiting.marks id p (entry id p found) set)

theorem Visiting.pushed (visiting : s.Visiting i handled [reqid] (handled ++ [reqid]))
    (items : after.delReqidList.items = s.client.delReqidList.items ++ [reqid])
    (entry : ∀ id, after.entryAt id = s.client.entryAt id) :
    Visiting { s with client := after } (i + 1) (handled ++ [reqid]) [] (handled ++ [reqid]) where
  round := by simp [visiting.round]
  apart := by
    obtain ⟨ahead, again, split, few, nodup⟩ := visiting.apart
    refine ⟨ahead, again ++ [reqid], ?_, ?_, by simpa using nodup⟩
    · rw [items, split, List.append_assoc]
    · rw [List.length_append]
      exact Nat.succ_le_succ few
  marks id p found set := visiting.marks id p ((entry id).symm.trans found) set

theorem Visiting.popped (visiting : s.Visiting i handled [] handled)
    (more : i < s.client.delReqidList.size) {list : SafeQueue Int32}
    (popped : s.client.delReqidList.pop = some (reqid, list))
    (items : after.delReqidList = list)
    (entry : ∀ id, after.entryAt id = s.client.entryAt id) :
    Visiting { s with client := after } i handled [reqid] handled where
  round := visiting.round
  apart := by
    obtain ⟨ahead, again, split, few, nodup⟩ := visiting.apart
    have first := (SafeQueue.pop_eq_some popped).1
    rw [SafeQueue.size, split, List.length_append] at more
    cases ahead with
    | nil => exact absurd more (by simpa using few)
    | cons id ahead =>
      rw [split, List.cons_append] at first
      obtain ⟨rfl, rest⟩ := List.cons.inj first
      exact ⟨ahead, again, items ▸ rest.symm, few, by simpa using nodup⟩
  marks id p found set := visiting.marks id p ((entry id).symm.trans found) set

theorem Grace.later (grace : s.Grace) (event : Event) (next : GraceClient) :
    s.LaterInvocation event next := by
  rintro p ⟨_, i, reqid, task, found⟩
  have visits := grace.visits
  rw [task] at visits
  obtain ⟨⟨handled, visiting⟩, someone⟩ := visits
  obtain ⟨marking, set⟩ := Option.isSome_iff_exists.mp (someone p found)
  refine ⟨marking, set, Nat.lt_of_le_of_ne (grace.known p marking set) ?_⟩
  rintro rfl
  obtain ⟨ahead, again, _, _, nodup⟩ := visiting.apart
  have before := visiting.marks reqid p found set
  have other := (List.nodup_append.mp (List.nodup_append.mp nodup).1).2.2
  exact other reqid before reqid (List.mem_singleton.mpr rfl) rfl

theorem Visits.keep {task : IoTask} (visits : s.Visits task)
    (items : after.delReqidList.items = s.client.delReqidList.items)
    (entry : ∀ id p, after.entryAt id = some p → s.client.entryAt id = some p) :
    Visits { s with client := after } task := by
  cases task with
  | idle => trivial
  | headFound head | headSet head => exact visits
  | exec i reqid =>
    obtain ⟨⟨handled, visiting⟩, someone⟩ := visits
    exact ⟨⟨handled, visiting.keep items entry⟩, fun p found => someone p (entry reqid p found)⟩
  | erasing i | pushing i reqid | popped i reqid | found i reqid | notExec i reqid
  | state i reqid =>
    obtain ⟨handled, visiting⟩ := visits
    exact ⟨handled, visiting.keep items entry⟩

/-- A step that marks nothing and adds no entry. -/
theorem Grace.advance (grace : s.Grace)
    (entry : ∀ id p, after.entryAt id = some p → s.client.entryAt id = some p)
    (flags : ∀ p, (after.entries p).eraseFlag = .eraseExec →
      (s.client.entries p).eraseFlag = .eraseExec)
    (visits : Visits { s with client := after } after.io) : Grace { s with client := after } where
  own id other p found same := grace.own id other p (entry id p found) (entry other p same)
  known := grace.known
  marked p flag := grace.marked p (flags p flag)
  visits := visits

/-- A step beside the io thread. -/
theorem Grace.keep (grace : s.Grace) (io : after.io = s.client.io)
    (items : after.delReqidList.items = s.client.delReqidList.items)
    (entry : ∀ id, after.entryAt id = s.client.entryAt id)
    (flags : ∀ p, (after.entries p).eraseFlag = .eraseExec →
      (s.client.entries p).eraseFlag = .eraseExec) :
    Grace { s with client := after } := by
  have entry : ∀ id p, after.entryAt id = some p → s.client.entryAt id = some p :=
    fun id p found => (entry id).symm.trans found
  refine grace.advance entry flags ?_
  rw [io]
  exact grace.visits.keep items entry

theorem Grace.read (grace : s.Grace) (allowed : event.readsOrErases)
    (outside : event ≠ .io ∧ event ≠ .eraseMsgTimer)
    (taken : s.client.step layout event = some after) (once : s.ListsOnce event next) :
    Grace { s with client := after } := by
  unfold MapClient.step at taken
  split at taken
  · cases taken
  cases event with
  | find reqId =>
    cases taken
    unfold MapClient.find
    split
    · exact grace.keep rfl rfl (fun _ => rfl) fun _ flag => flag
    · exact grace.keep rfl rfl (fun _ => rfl) fun _ flag => flag
  | lookUp caller =>
    dsimp only at taken
    unfold MapClient.lookUp at taken
    split at taken
    · rcases access_cases taken with ⟨p, _, used⟩ | ⟨_, io, items, entries, entry⟩
      · cases used
        exact grace.keep rfl rfl (fun _ => rfl) fun _ flag => flag
      · exact grace.keep io items entry fun p flag => by rwa [entries] at flag
    · cases taken
  | mark caller =>
    dsimp only at taken
    unfold MapClient.mark at taken
    split at taken
    · rename_i p stage
      dsimp only at taken
      split at taken
      · cases taken
        refine grace.keep rfl rfl (fun _ => rfl) fun q flag => ?_
        by_cases same : q = p
        · subst same
          simp [MapClient.store] at flag
        · simpa [MapClient.store, same] using flag
      · cases taken
    · cases taken
  | list caller =>
    have idle : s.client.io = .idle := once
    dsimp only at taken
    unfold MapClient.list at taken
    split at taken
    · cases taken
      refine grace.advance (fun _ _ found => found) (fun _ flag => flag) ?_
      change Visits _ s.client.io
      rw [idle]
      trivial
    · cases taken
  | status p v =>
    cases taken
    refine grace.keep rfl rfl (fun _ => rfl) fun q flag => ?_
    by_cases same : q = p
    · subst same
      simpa [MapClient.store, RpcStruct.setStatus, RpcStruct.doCloseTimer] using flag
    · simpa [MapClient.store, same] using flag
  | eraseMsgTimer => exact absurd rfl outside.2
  | io => exact absurd rfl outside.1
  | _ => cases allowed

theorem Grace.eraseMsgTimer (grace : s.Grace) (taken : s.client.eraseMsgTimer = some after)
    (once : s.client.delReqidList.items.Nodup) :
    Grace { s with client := after, invocation := s.invocation + 1 } := by
  unfold MapClient.eraseMsgTimer at taken
  split at taken
  · cases taken
    refine ⟨grace.own, ?_, grace.marked, [], rfl, ⟨_, [], ?_, Nat.le_refl _, once⟩, ?_⟩
    · exact fun p marking set => Nat.le_succ_of_le (grace.known p marking set)
    · rw [List.append_nil]
    · intro id p _ set
      have bound := grace.known p _ set
      exact absurd bound (Nat.not_succ_le_self _)
  · cases taken

theorem Grace.mark (grace : s.Grace) {p : Ptr} (task : s.client.io = .state i reqid)
    (found : s.client.entryAt reqid = some p) :
    Grace { s with
      client := { s.client.store p { s.client.entries p with eraseFlag := .eraseExec } with
        io := .pushing i reqid }
      setBy := Function.update s.setBy p (some s.invocation) } := by
  have visits := grace.visits
  rw [task] at visits
  obtain ⟨handled, visiting⟩ := visits
  refine ⟨grace.own, ?_, ?_, handled, visiting.round, visiting.apart, ?_⟩
  · intro q marking set
    by_cases same : q = p
    · subst same
      simp only [Function.update_self, Option.some.injEq] at set
      exact Nat.le_of_eq set.symm
    · simp only [Function.update_of_ne same] at set
      exact grace.known q marking set
  · intro q flag
    by_cases same : q = p
    · subst same
      simp
    · simp only [MapClient.store, Function.update_of_ne same] at flag ⊢
      exact grace.marked q flag
  · intro id q shown set
    have shown : s.client.entryAt id = some q := shown
    by_cases same : q = p
    · subst same
      exact List.mem_append_right _ (List.mem_singleton.mpr (grace.own id reqid q shown found))
    · simp only [Function.update_of_ne same] at set
      exact List.mem_append_left _ (visiting.marks id q shown set)

theorem Grace.crashed (grace : s.Grace) (io : after.io = s.client.io)
    (items : after.delReqidList.items = s.client.delReqidList.items)
    (entries : after.entries = s.client.entries)
    (entry : ∀ id, after.entryAt id = s.client.entryAt id) : Grace { s with client := after } :=
  grace.keep io items entry fun p flag => by rwa [entries] at flag

theorem Grace.ioStep (grace : s.Grace) (taken : s.client.ioStep layout = some after) :
    Grace (s.record .io after) := by
  have visits := grace.visits
  unfold MapClient.ioStep at taken
  unfold record
  cases task : s.client.io with
  | idle => simp [task] at taken
  | headFound head | headSet head =>
    rw [task] at visits
    exact visits.elim
  | erasing i =>
    simp only [task] at taken visits ⊢
    obtain ⟨handled, visiting⟩ := visits
    split at taken
    · rename_i more
      obtain ⟨⟨reqid, list⟩, popped, rfl⟩ := Option.map_eq_some_iff.mp taken
      exact grace.advance (fun _ _ found => found) (fun _ flag => flag)
        ⟨handled, visiting.popped more popped rfl fun _ => rfl⟩
    · cases taken
      exact grace.advance (fun _ _ found => found) (fun _ flag => flag) trivial
  | popped i reqid =>
    simp only [task] at taken visits ⊢
    obtain ⟨handled, visiting⟩ := visits
    cases taken
    refine grace.advance (fun _ _ found => found) (fun _ flag => flag) ?_
    dsimp only
    split
    · exact ⟨handled, visiting.keep rfl fun _ _ found => found⟩
    · exact ⟨_, visiting.dropped rfl fun _ _ found => found⟩
  | found i reqid =>
    simp only [task] at taken visits ⊢
    obtain ⟨handled, visiting⟩ := visits
    rcases access_cases taken with ⟨p, found, used⟩ | ⟨_, io, items, entries, entry⟩
    · cases used
      refine grace.advance (fun _ _ found => found) (fun _ flag => flag) ?_
      dsimp only
      split
      · rename_i flag
        refine ⟨⟨handled, visiting.keep rfl fun _ _ found => found⟩, fun q shown => ?_⟩
        have same : some q = some p := shown.symm.trans found
        cases same
        exact grace.marked p flag
      · exact ⟨handled, visiting.keep rfl fun _ _ found => found⟩
    · exact grace.crashed io items entries entry
  | exec i reqid =>
    simp only [task] at taken visits ⊢
    obtain ⟨⟨handled, visiting⟩, _⟩ := visits
    cases taken
    exact grace.advance (fun _ _ => entryAt_of_erase) (fun _ flag => flag)
      ⟨_, visiting.dropped rfl fun _ _ => entryAt_of_erase⟩
  | notExec i reqid =>
    simp only [task] at taken visits ⊢
    obtain ⟨handled, visiting⟩ := visits
    rcases access_cases taken with ⟨p, found, used⟩ | ⟨_, io, items, entries, entry⟩
    · cases used
      refine grace.advance (fun _ _ found => found) (fun _ flag => flag) ?_
      dsimp only
      split
      · exact ⟨handled, visiting.keep rfl fun _ _ found => found⟩
      · refine ⟨handled, visiting.round, visiting.apart, fun id p shown set => ?_⟩
        exact List.mem_append_left _ (visiting.marks id p shown set)
    · exact grace.crashed io items entries entry
  | state i reqid =>
    simp only [task] at taken ⊢
    rcases access_cases taken with ⟨p, found, used⟩ | ⟨missing, io, items, entries, entry⟩
    · cases used
      simp only [found]
      exact grace.mark task found
    · simp only [missing]
      exact grace.crashed io items entries entry
  | pushing i reqid =>
    simp only [task] at taken visits ⊢
    obtain ⟨handled, visiting⟩ := visits
    cases taken
    exact grace.advance (fun _ _ found => found) (fun _ flag => flag)
      ⟨_, visiting.pushed rfl fun _ => rfl⟩

/-- Every step keeps what is known of the marks. -/
theorem Grace.step (grace : s.Grace) (taken : s.step layout event = some next)
    (once : s.ListsOnce event next) : next.Grace := by
  unfold GraceClient.step at taken
  split at taken
  · rename_i allowed
    obtain ⟨after, moved, rfl⟩ := Option.map_eq_some_iff.mp taken
    by_cases outside : event ≠ .io ∧ event ≠ .eraseMsgTimer
    · have kept := grace.read allowed outside moved once
      cases event with
      | io => exact absurd rfl outside.1
      | eraseMsgTimer => exact absurd rfl outside.2
      | _ => exact kept
    · unfold MapClient.step at moved
      split at moved
      · cases moved
      cases event with
      | io => exact grace.ioStep moved
      | eraseMsgTimer => exact grace.eraseMsgTimer moved once
      | _ => simp at outside
  · cases taken

/-! ### An invocation that nothing interrupts -/

/-- What a round of the loop does to an id in the deletion state: it is marked and
listed again. -/
def relisted (s : GraceClient) (i : Nat) (id : Int32) (rest : List Int32) (p : Ptr) : GraceClient :=
  { s with
    client := { s.client.store p { s.client.entries p with eraseFlag := .eraseExec } with
      delReqidList := { head := some id, items := rest ++ [id] }
      io := .erasing (i + 1) }
    setBy := Function.update s.setBy p (some s.invocation) }

private theorem run_round {id : Int32} {rest : List Int32} {p : Ptr}
    (running : s.client.crashed = false) (task : s.client.io = .erasing i)
    (items : s.client.delReqidList.items = id :: rest) (more : i ≤ rest.length)
    (found : s.client.entryAt id = some p)
    (state : (s.client.entries p).eraseFlag = .eraseState) :
    (machine layout).run s (List.replicate 6 .io) = some (s.relisted i id rest p) := by
  obtain ⟨ref, slot, held⟩ := Option.bind_eq_some_iff.mp found
  have less : i < rest.length + 1 := Nat.lt_succ_of_le more
  simp [Machine.run, machine, GraceClient.step, Event.readsOrErases, MapClient.step,
    MapClient.ioStep, running, task, SafeQueue.size, SafeQueue.pop, items, less, SafeMap.has, slot,
    record, MapClient.access, SafeMap.subscript_of_slot slot, held, state, MapClient.entryAt,
    MapClient.store, relisted, SafeQueue.push]

/-- The list begins with different ids, and their entries are in the deletion state. -/
structure InState (s : GraceClient) (i : Nat) (front back : List Int32) : Prop where
  running : s.client.crashed = false
  io : s.client.io = .erasing i
  items : s.client.delReqidList.items = front ++ back
  distinct : front.Nodup
  states : ∀ id ∈ front, ∃ p, s.client.entryAt id = some p ∧
    (s.client.entries p).eraseFlag = .eraseState

/-- The entries of some ids have been marked by the current invocation, and no others. -/
structure Marks (s next : GraceClient) (ids : List Int32) : Prop where
  entry : ∀ id, next.client.entryAt id = s.client.entryAt id
  invocation : next.invocation = s.invocation
  marked : ∀ id ∈ ids, ∀ p, s.client.entryAt id = some p →
    (next.client.entries p).eraseFlag = .eraseExec ∧ next.setBy p = some s.invocation
  others : ∀ p, (∀ id ∈ ids, s.client.entryAt id ≠ some p) →
    next.client.entries p = s.client.entries p ∧ next.setBy p = s.setBy p

theorem InState.relisted {id : Int32} {front back : List Int32} {p : Ptr}
    (instate : InState s i (id :: front) back) (own : s.client.OwnEntries)
    (found : s.client.entryAt id = some p) :
    InState (s.relisted i id (front ++ back) p) (i + 1) front (back ++ [id]) where
  running := instate.running
  io := rfl
  items := by simp [GraceClient.relisted]
  distinct := (List.nodup_cons.mp instate.distinct).2
  states := by
    intro other member
    obtain ⟨q, held, state⟩ := instate.states other (List.mem_cons_of_mem _ member)
    refine ⟨q, held, ?_⟩
    have apart : q ≠ p := by
      rintro rfl
      have same := own other id q held found
      exact (List.nodup_cons.mp instate.distinct).1 (same ▸ member)
    simp [GraceClient.relisted, MapClient.store, apart, state]

private theorem InState.run_rounds (layout : IntLayout) {front back : List Int32}
    (instate : InState s i front back) (own : s.client.OwnEntries) (more : i ≤ back.length) :
    ∃ next, (machine layout).run s (List.replicate (6 * front.length) .io) = some next ∧
      InState next (i + front.length) [] (back ++ front) ∧ Marks s next front := by
  induction front generalizing s i back with
  | nil =>
    refine ⟨s, rfl, ?_, fun _ => rfl, rfl, by simp, fun _ _ => ⟨rfl, rfl⟩⟩
    simpa using instate
  | cons id front ih =>
    obtain ⟨p, found, state⟩ := instate.states id List.mem_cons_self
    have long : i ≤ (front ++ back).length := by
      rw [List.length_append]
      omega
    have round : (machine layout).run s (List.replicate 6 .io) =
        some (s.relisted i id (front ++ back) p) :=
      run_round instate.running instate.io instate.items long found state
    obtain ⟨next, rest, final, marks⟩ := ih (instate.relisted own found) own
      (by rw [List.length_append, List.length_singleton]; omega)
    have steps : 6 * (id :: front).length = 6 + 6 * front.length := by
      rw [List.length_cons]
      omega
    refine ⟨next, ?_, ?_, marks.entry, marks.invocation, ?_, ?_⟩
    · rw [steps, ← List.replicate_append_replicate, Machine.run_append, round]
      exact rest
    · rw [List.append_cons, List.length_cons, ← Nat.add_assoc, Nat.add_right_comm]
      exact final
    · intro other member q held
      by_cases mine : q = p
      · subst mine
        -- Nobody else has this entry, so it stays as this round left it.
        have alone : ∀ later ∈ front, s.client.entryAt later ≠ some q := by
          intro later ahead same
          have equal := own later id q same found
          exact (List.nodup_cons.mp instate.distinct).1 (equal ▸ ahead)
        obtain ⟨entries, setBy⟩ := marks.others q alone
        rw [entries, setBy]
        simp [GraceClient.relisted, MapClient.store]
      · rcases List.mem_cons.mp member with same | ahead
        · subst same
          rw [found] at held
          exact absurd (Option.some.inj held).symm mine
        · exact marks.marked other ahead q held
    · intro q apart
      have different : q ≠ p := by
        rintro rfl
        exact apart id List.mem_cons_self found
      obtain ⟨entries, setBy⟩ := marks.others q fun later ahead =>
        apart later (List.mem_cons_of_mem _ ahead)
      rw [entries, setBy]
      simp [GraceClient.relisted, MapClient.store, different]

private theorem exists_repetition {ids : List Int32} (twice : ¬ ids.Nodup) :
    ∃ front id back, ids = front ++ id :: back ∧ front.Nodup ∧ id ∈ front := by
  induction ids using List.reverseRecOn with
  | nil => simp at twice
  | append_singleton ids id ih =>
    by_cases once : ids.Nodup
    · refine ⟨ids, id, [], rfl, once, ?_⟩
      by_contra absent
      exact twice (List.nodup_append.mpr ⟨once, by simp, fun a member b single => by
        rw [List.mem_singleton.mp single]
        rintro rfl
        exact absent member⟩)
    · obtain ⟨front, again, back, rfl, distinct, member⟩ := ih once
      exact ⟨front, again, back ++ [id], by simp, distinct, member⟩

private theorem removes_marked {id : Int32} {rest : List Int32} {p : Ptr}
    (running : s.client.crashed = false) (task : s.client.io = .erasing i)
    (items : s.client.delReqidList.items = id :: rest) (more : i ≤ rest.length)
    (found : s.client.entryAt id = some p)
    (exec : (s.client.entries p).eraseFlag = .eraseExec)
    (set : s.setBy p = some s.invocation) :
    ¬ (machine layout).AllSteps LaterInvocation s (List.replicate 4 .io) := by
  obtain ⟨ref, slot, held⟩ := Option.bind_eq_some_iff.mp found
  have less : i < rest.length + 1 := Nat.lt_succ_of_le more
  intro all
  have reached : (machine layout).run s (List.replicate 3 .io) = some { s with
      client := { s.client with
        delReqidList := { head := some id, items := rest }
        io := .exec i id } } := by
    simp [Machine.run, machine, GraceClient.step, Event.readsOrErases, MapClient.step,
      MapClient.ioStep, running, task, SafeQueue.size, SafeQueue.pop, items, less, SafeMap.has,
      slot, record, MapClient.access, SafeMap.subscript_of_slot slot, held, exec]
  have last : (machine layout).AllSteps LaterInvocation s (List.replicate 3 .io ++ [.io]) := all
  obtain ⟨later, _⟩ := last.suffix reached _ (by
    simp only [machine, GraceClient.step, Event.readsOrErases, MapClient.step, running,
      MapClient.ioStep]
    rfl)
  obtain ⟨marking, same, earlier⟩ := later p ⟨rfl, i, id, rfl, found⟩
  have same : s.setBy p = some marking := same
  rw [set] at same
  cases same
  exact Nat.lt_irrefl _ earlier

private theorem nodup_of_later {client : MapClient} (own : client.OwnEntries)
    (running : client.crashed = false)
    (states : ∀ id ∈ client.delReqidList.items, ∃ p, client.entryAt id = some p ∧
      (client.entries p).eraseFlag = .eraseState)
    (later : ∀ steps, (machine layout).AllSteps LaterInvocation (start client)
      (uninterrupted steps)) : client.delReqidList.items.Nodup := by
  by_contra twice
  obtain ⟨front, id, back, items, distinct, member⟩ := exists_repetition twice
  have begun : (machine layout).step (start client) .eraseMsgTimer = some
      { client := { client with io := .erasing 0 }, invocation := 2,
        setBy := (start client).setBy } := by
    simp [machine, GraceClient.step, Event.readsOrErases, MapClient.step, start, running,
      MapClient.eraseMsgTimer, record]
  have instate : InState
      { client := { client with io := .erasing 0 }, invocation := 2,
        setBy := (start client).setBy } 0 front (id :: back) :=
    ⟨running, rfl, items, distinct, fun other inside => states other (by simp [items, inside])⟩
  obtain ⟨next, rounds, final, marks⟩ := instate.run_rounds layout own (Nat.zero_le _)
  obtain ⟨p, found, _⟩ := states id (by simp [items])
  obtain ⟨exec, set⟩ := marks.marked id member p found
  have all := later (6 * front.length + 4)
  rw [uninterrupted, ← List.replicate_append_replicate] at all
  have tail := (all _ begun).2.suffix rounds
  refine removes_marked final.running final.io final.items ?_ ((marks.entry id).trans found) exec
    (set.trans (congrArg some marks.invocation.symm)) tail
  change 0 + front.length ≤ (back ++ front).length
  rw [List.length_append]
  omega

private theorem listsOnce_io (s : GraceClient) (steps : Nat) :
    (machine layout).AllSteps ListsOnce s (List.replicate steps .io) := by
  induction steps generalizing s with
  | zero => trivial
  | succ steps ih => exact fun next _ => ⟨trivial, ih next⟩

/-- From whatever a client has come to, however reads and invocations interleave: an
entry is removed in a later invocation than it was marked in, as long as every
invocation begins with different ids and no read pushes one while it is under way.
Over ids in the deletion state, an invocation that nothing interrupts needs different
ids for that. -/
theorem laterInvocation_of_listsOnce (layout : IntLayout) {client : MapClient}
    (reached : (MapClient.machine layout).Reaches .start client) :
    (∀ schedule, (machine layout).AllSteps ListsOnce (start client) schedule →
      (machine layout).AllSteps LaterInvocation (start client) schedule) ∧
    (client.crashed = false →
      (∀ id ∈ client.delReqidList.items, ∃ p, client.entryAt id = some p ∧
        (client.entries p).eraseFlag = .eraseState) →
      ((∀ steps, (machine layout).AllSteps LaterInvocation (start client)
        (uninterrupted steps)) ↔ client.delReqidList.items.Nodup)) := by
  have own := ownEntries_of_reaches reached
  have enough : ∀ schedule, (machine layout).AllSteps ListsOnce (start client) schedule →
      (machine layout).AllSteps LaterInvocation (start client) schedule := fun schedule once =>
    Machine.allSteps_of_guarded Grace
      (fun grace taken once => ⟨grace.later _ _, grace.step taken once⟩) (.start own) once
  refine ⟨enough, fun running states => ⟨nodup_of_later own running states, ?_⟩⟩
  exact fun distinct steps => enough _ fun next _ => ⟨distinct, listsOnce_io next steps⟩

/-- Two messages are written and their replies arrive. -/
def twoReplies : List Event :=
  [.build, .subscript 0, .assign 0, .build, .subscript 0, .assign 0, .status 0 .readOk,
    .status 1 .readOk]

/-- A client with two entries whose replies have arrived. -/
def answered : MapClient :=
  ((MapClient.machine .littleEndian).run .start twoReplies).get (by decide +kernel)

private theorem answered_reached : (MapClient.machine .littleEndian).Reaches .start answered :=
  .get (by decide +kernel)

/-- One whole call of `read` of an entry that has its reply. -/
def readOf (reqId : Int32) : List Event := [.find reqId, .lookUp 0, .mark 0, .list 0]

/-- Both replies are read, and two invocations follow. -/
def readBoth : List Event :=
  readOf 1 ++ readOf 2 ++ uninterrupted 13 ++ uninterrupted 5

theorem readBoth_removes_later :
    (machine .littleEndian).AllSteps LaterInvocation (start answered) readBoth := by
  refine (laterInvocation_of_listsOnce .littleEndian answered_reached).1 readBoth ?_
  decide +kernel

/-- A reply is read twice, and the invocation that follows comes to its second visit. -/
def readTwice : List Event := readOf 1 ++ readOf 1 ++ uninterrupted 9

/-- A reply is read, and the other one while an invocation is under way. -/
def readMeanwhile : List Event := readOf 1 ++ uninterrupted 6 ++ readOf 2 ++ List.replicate 3 .io

/-- The key whose erasure is next. -/
def erasing : IoTask → Option Int32
  | .exec _ reqid => some reqid
  | _ => none

private theorem exec_of_erasing {task : IoTask} {reqid : Int32} (next : erasing task = some reqid) :
    ∃ i, task = .exec i reqid := by
  cases task with
  | exec i other =>
    cases next
    exact ⟨i, rfl⟩
  | _ => cases next

/-- Either invocation marks the entry of the first id at its first visit and removes it at
its second. -/
theorem readTwice_removes_at_once :
    ¬ (machine .littleEndian).AllSteps LaterInvocation (start answered) (readTwice ++ [.io]) ∧
      ¬ (machine .littleEndian).AllSteps LaterInvocation (start answered)
        (readMeanwhile ++ [.io]) := by
  have removes : ∀ schedule, ((machine .littleEndian).run (start answered) schedule).map
      (fun s => (erasing s.client.io, s.client.entryAt 1, s.setBy 0, s.invocation,
        ((machine .littleEndian).step s .io).isSome)) =
        some (some 1, some 0, some 2, 2, true) →
      ¬ (machine .littleEndian).AllSteps LaterInvocation (start answered)
        (schedule ++ [.io]) := by
    intro schedule outcome all
    obtain ⟨middle, reached, same⟩ := Option.map_eq_some_iff.mp outcome
    simp only [Prod.mk.injEq] at same
    obtain ⟨task, entry, set, invocation, goesOn⟩ := same
    obtain ⟨i, task⟩ := exec_of_erasing task
    obtain ⟨next, taken⟩ := Option.isSome_iff_exists.mp goesOn
    have later := (all.suffix reached next taken).1
    obtain ⟨marking, other, earlier⟩ := later 0 ⟨rfl, i, 1, task, entry⟩
    rw [set] at other
    cases other
    rw [invocation] at earlier
    exact Nat.lt_irrefl _ earlier
  exact ⟨removes _ (by decide +kernel), removes _ (by decide +kernel)⟩

end GraceClient

end RpcLoop
