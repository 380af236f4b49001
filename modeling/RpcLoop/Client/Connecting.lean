import RpcLoop.Client.Transition

/-! The connection part of a client, one access to `clietn_status` or to the
socket at a time. Any number of threads may be inside `is_open`, `do_close` and
`handle_connect`; `is_open` looks at the socket, `do_connect` then tests the
status and sets it, and only after that starts the connect. -/

namespace RpcLoop

open Foundation Asio Shared

namespace Link

/-- `socket_->async_connect(..)`, which opens the socket unless it is open. -/
def asyncConnect (l : Link) : Option Link := do
  let socket ← l.socket
  if socket.isOpen then
    return { l with connects := l.connects ++ [{ what := (), conn := l.attempt, state := .live }] }
  else
    return { l with
      socket := some { isOpen := true, connected := false }
      attempt := l.attempt + 1
      connects := l.connects ++ [{ what := (), conn := l.attempt + 1, state := .live }] }

/-- The calls on the socket at the end of `do_close`; `shutdown` throws where it fails. -/
def shutDown (l : Link) : Option Link :=
  match l.socket with
  | none => some l
  | some socket =>
    if socket.isOpen ∧ socket.shuts then
      some { l.abortAll with socket := some { isOpen := false, connected := false } }
    else none

end Link

/-- A call, by the access it makes next. Behind `handle_connect` stands the
connection whose connect has ended. -/
inductive LinkCall where
  | asking
  | testing
  | marking
  | connecting
  | reading (conn : Nat)
  | resetting (conn : Nat)
  | closeTesting
  | closeMarking
  | closing
  deriving DecidableEq, Repr

/-- The connection whose `handle_connect` the call is. -/
def LinkCall.handles : LinkCall → Option Nat
  | .reading conn | .resetting conn => some conn
  | _ => none

structure SharedLink where
  link : Link
  calls : List LinkCall
  started : List Nat

namespace SharedLink

/-- After the constructor, before any other call. -/
def start : SharedLink where
  link := Link.init.doConnect
  calls := []
  started := []

/-- The call returns. -/
def return_ (s : SharedLink) (caller : Nat) : SharedLink :=
  { s with calls := s.calls.eraseIdx caller }

/-- The call comes to its next access. -/
def goOn (s : SharedLink) (caller : Nat) (call : LinkCall) : SharedLink :=
  { s with calls := s.calls.set caller call }

/-- The next access of a call. -/
def act (s : SharedLink) (caller : Nat) : LinkCall → Option SharedLink
  | .asking => do
    let socket ← s.link.socket
    return if socket.isOpen then s.return_ caller else s.goOn caller .testing
  | .testing =>
    some (if s.link.clietnStatus = .conn then s.return_ caller else s.goOn caller .marking)
  | .marking => some { s.goOn caller .connecting with
      link := { s.link with clietnStatus := .conn } }
  | .connecting => do
    let link ← s.link.asyncConnect
    return { s.return_ caller with link := link }
  | .reading conn => do
    let link ← s.link.asyncRead (.head {})
    return { s.return_ caller with link := link, started := conn :: s.started }
  | .resetting _ => some { s.return_ caller with link := s.link.resetSocket }
  | .closeTesting =>
    some (if s.link.clietnStatus = .connClose then s.return_ caller
      else s.goOn caller .closeMarking)
  | .closeMarking => some { s.goOn caller .closing with
      link := { s.link with clietnStatus := .connClose } }
  | .closing => do
    let link ← s.link.shutDown
    return { s.return_ caller with link := link }

inductive Event where
  | isOpen
  | doClose
  | connected (index : Nat)
  | handleConnect (index : Nat) (error : Bool)
  | act (caller : Nat)
  | disturbed (lost shuts : Bool)

/-- The connection of an outstanding connect is established. -/
def completeConnect (s : SharedLink) (index : Nat) : Option SharedLink := do
  let op ← s.link.connects[index]?
  if op.state = .live ∧ s.link.lost = false then
    return { s with link := { s.link with
      socket := s.link.establish
      connects := s.link.connects.set index { op with state := .done } } }
  else none

/-- `handle_connect` is invoked and sets the status. -/
def handleConnect (s : SharedLink) (index : Nat) (error : Bool) : Option SharedLink := do
  let op ← s.link.connects[index]?
  if op.Delivers error then
    return { s with
      link := { s.link with
        connects := s.link.connects.eraseIdx index
        clietnStatus := if error then .error else .connOk }
      calls := s.calls ++ [if error then .resetting op.conn else .reading op.conn] }
  else none

def step (s : SharedLink) : Event → Option SharedLink
  | .isOpen => some { s with calls := s.calls ++ [.asking] }
  | .doClose => some { s with calls := s.calls ++ [.closeTesting] }
  | .connected index => s.completeConnect index
  | .handleConnect index error => s.handleConnect index error
  | .act caller => do
    let call ← s.calls[caller]?
    s.act caller call
  | .disturbed lost shuts => do
    let link ← s.link.disturb lost shuts
    return { s with link := link }

def machine : Machine SharedLink Event where
  step := step

/-- The connects of a connection: those outstanding, those whose handler is
running, and those that have started a read chain. -/
def connectsOf (s : SharedLink) (conn : Nat) : Nat :=
  s.link.connects.countP (·.conn == conn) + s.calls.countP (·.handles == some conn) +
    s.started.count conn

/-- At most one connect is outstanding on the socket, and with the read chains that
were started on its connection at most one connect was ever made. -/
structure OneConnect (s : SharedLink) : Prop where
  outstanding : Operation.outstanding s.link.attempt s.link.connects ≤ 1
  chain : s.connectsOf s.link.attempt ≤ 1

/-- `async_connect` is called on a socket that is still closed, as `is_open` found it. -/
def ConnectsClosed (s : SharedLink) (event : Event) (_ : SharedLink) : Prop :=
  ∀ caller, event = .act caller → s.calls[caller]? = some .connecting → s.link.opened = false

/-- What a step does to the connects of each connection. -/
inductive Moves (s : SharedLink) (event : Event) (next : SharedLink) : Prop where
  | quiet (attempt : next.link.attempt = s.link.attempt)
      (same : ∀ conn, next.connectsOf conn = s.connectsOf conn)
      (opened : next.link.opened = true → s.link.opened = true)
      (calm : ∀ caller, event = .act caller → s.calls[caller]? ≠ some .connecting)
  | closes (attempt : next.link.attempt = s.link.attempt)
      (fewer : ∀ conn, next.connectsOf conn ≤ s.connectsOf conn)
      (closed : next.link.opened = false)
      (calm : ∀ caller, event = .act caller → s.calls[caller]? ≠ some .connecting)
  | again (caller : Nat) (called : event = .act caller)
      (stage : s.calls[caller]? = some .connecting) (opened : s.link.opened = true)
      (attempt : next.link.attempt = s.link.attempt)
      (more : ∀ conn, next.connectsOf conn =
        s.connectsOf conn + if conn = s.link.attempt then 1 else 0)
  | opens (closed : s.link.opened = false) (attempt : next.link.attempt = s.link.attempt + 1)
      (more : ∀ conn, next.connectsOf conn =
        s.connectsOf conn + if conn = s.link.attempt + 1 then 1 else 0)

variable {s next : SharedLink} {event : Event} {caller : Nat} {call other : LinkCall}

/-- A call that returns is no longer counted. -/
theorem connectsOf_return (stage : s.calls[caller]? = some call) (conn : Nat) :
    (s.return_ caller).connectsOf conn + (if call.handles = some conn then 1 else 0) =
      s.connectsOf conn := by
  have fewer := countP_eraseIdx (fun call : LinkCall => call.handles == some conn) stage
  simp only [beq_iff_eq] at fewer
  simp only [connectsOf, return_]
  omega

private theorem connectsOf_goOn (stage : s.calls[caller]? = some call) (idle : call.handles = none)
    (next : other.handles = none) (conn : Nat) :
    (s.goOn caller other).connectsOf conn = s.connectsOf conn := by
  have same := countP_replace (fun call : LinkCall => call.handles == some conn) stage other
  simp only [idle, next] at same
  simp only [connectsOf, goOn]
  simpa using same

private theorem connectsOf_call (idle : call.handles = none) (conn : Nat) :
    connectsOf { s with calls := s.calls ++ [call] } conn = s.connectsOf conn := by
  simp [connectsOf, idle]

private theorem connectsOf_connect {link : Link} (op : Operation Unit)
    (same : link.connects = s.link.connects ++ [op]) (conn : Nat) :
    connectsOf { s with link := link } conn =
      s.connectsOf conn + if conn = op.conn then 1 else 0 := by
  simp only [connectsOf, same, List.countP_append, List.countP_singleton, beq_iff_eq,
    eq_comm (a := op.conn)]
  omega

private theorem connectsOf_abort (link : Link) (same : link.connects = s.link.connects.map .abort)
    (conn : Nat) : connectsOf { s with link := link } conn = s.connectsOf conn := by
  simp [connectsOf, same, List.countP_map, Function.comp_def]

theorem calm_of_stage (stage : s.calls[caller]? = some call) (idle : call ≠ .connecting) :
    ∀ other, Event.act caller = .act other → s.calls[other]? ≠ some .connecting := by
  rintro other ⟨⟩ connecting
  exact idle (Option.some.inj (stage.symm.trans connecting))

/-- A call outside `handle_connect` returns without a connect. -/
theorem Moves.returns (stage : s.calls[caller]? = some call) (idle : call.handles = none)
    (other : call ≠ .connecting) : Moves s (.act caller) (s.return_ caller) := by
  refine .quiet rfl (fun conn => ?_) (fun opened => opened) (calm_of_stage stage other)
  simpa [idle] using connectsOf_return stage conn

theorem Moves.goesOn (stage : s.calls[caller]? = some call) (idle : call.handles = none)
    (next : other.handles = none) (calm : call ≠ .connecting) (status : ClientStatusType) :
    Moves s (.act caller) { s.goOn caller other with
      link := { s.link with clietnStatus := status } } :=
  .quiet rfl (fun conn => connectsOf_goOn stage idle next conn) (fun opened => opened)
    (calm_of_stage stage calm)

/-- Closing the socket for a call, which then returns. -/
theorem Moves.closed (stage : s.calls[caller]? = some call) (calm : call ≠ .connecting)
    (link : Link) (attempt : link.attempt = s.link.attempt)
    (same : link.connects = s.link.connects.map .abort) (closed : link.opened = false) :
    Moves s (.act caller) { s.return_ caller with link := link } := by
  refine .closes attempt (fun conn => ?_) closed (calm_of_stage stage calm)
  have kept := connectsOf_abort (s := s.return_ caller) link same conn
  rw [kept, ← connectsOf_return stage conn]
  exact Nat.le_add_right _ _

private theorem act_moves (stage : s.calls[caller]? = some call)
    (taken : s.act caller call = some next) :
    Moves s (.act caller) next := by
  cases call with
  | asking =>
    simp only [act, Option.bind_eq_bind, Option.bind_eq_some_iff, Option.pure_def] at taken
    obtain ⟨socket, _, same⟩ := taken
    cases same
    split
    · exact .returns stage rfl (by simp)
    · exact .goesOn stage rfl rfl (by simp) s.link.clietnStatus
  | testing =>
    cases taken
    split
    · exact .returns stage rfl (by simp)
    · exact .goesOn stage rfl rfl (by simp) s.link.clietnStatus
  | marking =>
    cases taken
    exact .goesOn stage rfl rfl (by simp) .conn
  | connecting =>
    simp only [act, Link.asyncConnect, Option.bind_eq_bind, Option.bind_eq_some_iff,
      Option.pure_def] at taken
    obtain ⟨link, ⟨socket, found, connects⟩, same⟩ := taken
    cases same
    have kept := connectsOf_return stage
    simp only [LinkCall.handles, reduceCtorEq, if_false, Nat.add_zero] at kept
    split at connects
    · rename_i up
      cases connects
      refine .again caller rfl stage (by simp [Link.opened, found, up]) rfl fun conn => ?_
      rw [← kept]
      exact connectsOf_connect (s := s.return_ caller) ⟨(), s.link.attempt, .live⟩ rfl conn
    · rename_i down
      cases connects
      refine .opens (by simpa [Link.opened, found] using down) rfl fun conn => ?_
      rw [← kept]
      exact connectsOf_connect (s := s.return_ caller) ⟨(), s.link.attempt + 1, .live⟩ rfl conn
  | reading conn =>
    simp only [act, Option.bind_eq_bind, Option.bind_eq_some_iff, Option.pure_def] at taken
    obtain ⟨link, reading, same⟩ := taken
    cases same
    obtain ⟨_, _, _, _, rfl⟩ := Link.asyncRead_eq_some reading
    refine .quiet rfl (fun other => ?_) (fun opened => opened) (calm_of_stage stage (by simp))
    rw [← connectsOf_return stage other]
    simp only [connectsOf, return_, List.count_cons, LinkCall.handles, Option.some.injEq,
      beq_iff_eq]
    omega
  | resetting conn =>
    cases taken
    exact .closed stage (by simp) _ rfl rfl rfl
  | closeTesting =>
    cases taken
    split
    · exact .returns stage rfl (by simp)
    · exact .goesOn stage rfl rfl (by simp) s.link.clietnStatus
  | closeMarking =>
    cases taken
    exact .goesOn stage rfl rfl (by simp) .connClose
  | closing =>
    simp only [act, Option.bind_eq_bind, Option.bind_eq_some_iff, Option.pure_def] at taken
    obtain ⟨link, shut, same⟩ := taken
    cases same
    simp only [Link.shutDown] at shut
    split at shut
    · cases shut
      exact .returns stage rfl (by simp)
    · split at shut
      · cases shut
        exact .closed stage (by simp) _ rfl rfl rfl
      · cases shut

private theorem step_moves (taken : step s event = some next) : Moves s event next := by
  cases event with
  | isOpen =>
    cases taken
    exact .quiet rfl (connectsOf_call rfl) (fun opened => opened) (fun _ called => by cases called)
  | doClose =>
    cases taken
    exact .quiet rfl (connectsOf_call rfl) (fun opened => opened) (fun _ called => by cases called)
  | connected index =>
    simp only [step, completeConnect, Option.bind_eq_bind, Option.bind_eq_some_iff,
      Option.pure_def] at taken
    obtain ⟨op, found, taken⟩ := taken
    split at taken
    · cases taken
      refine .quiet rfl (fun conn => ?_) (fun opened => ?_) (fun _ called => by cases called)
      · have same := Nat.add_right_cancel
          (countP_replace (fun op : Operation Unit => op.conn == conn) found
            { op with state := .done })
        simp only [connectsOf, same]
      · simpa [Link.opened, Link.establish, Option.any_map, Function.comp_def] using opened
    · cases taken
  | disturbed lost shuts =>
    simp only [step, Option.bind_eq_bind, Option.bind_eq_some_iff, Option.pure_def] at taken
    obtain ⟨link, turned, same⟩ := taken
    cases same
    obtain ⟨socket, after, found, upset, rfl⟩ := Link.disturb_eq_some turned
    refine .quiet rfl (fun _ => rfl) (fun _ => ?_) (fun _ called => by cases called)
    rw [Link.opened, found, Option.any_some, upset.up]
  | handleConnect index error =>
    simp only [step, handleConnect, Option.bind_eq_bind, Option.bind_eq_some_iff,
      Option.pure_def] at taken
    obtain ⟨op, found, taken⟩ := taken
    split at taken
    · cases taken
      refine .quiet rfl (fun conn => ?_) (fun opened => opened) (fun _ called => by cases called)
      have fewer := countP_eraseIdx (fun op : Operation Unit => op.conn == conn) found
      cases error <;> simp [connectsOf, LinkCall.handles] at fewer ⊢ <;> omega
    · cases taken
  | act caller =>
    simp only [step, Option.bind_eq_bind, Option.bind_eq_some_iff] at taken
    obtain ⟨call, stage, taken⟩ := taken
    exact act_moves stage taken

/-- What every step keeps: an open socket has its connect, and connections that
were not made yet have none. -/
structure Numbered (s : SharedLink) : Prop where
  opened : s.link.opened = true → 1 ≤ s.connectsOf s.link.attempt
  later : ∀ conn, s.link.attempt < conn → s.connectsOf conn = 0

theorem Numbered.start : Numbered start where
  opened _ := by decide
  later conn made := by
    have other : (1 == conn) = false := by
      have different : 1 ≠ conn := Nat.ne_of_lt made
      simpa using different
    simp [connectsOf, SharedLink.start, Link.init, Link.doConnect, other]

theorem Numbered.step (numbered : Numbered s) (moves : Moves s event next) : Numbered next := by
  cases moves with
  | quiet attempt same opened calm =>
    constructor
    · rw [attempt, same]
      exact fun up => numbered.opened (opened up)
    · intro conn made
      rw [same]
      exact numbered.later conn (attempt ▸ made)
  | closes attempt fewer closed calm =>
    constructor
    · intro up
      rw [closed] at up
      cases up
    · intro conn made
      have none := numbered.later conn (attempt ▸ made)
      exact Nat.le_zero.mp (none ▸ fewer conn)
  | again caller called stage opened attempt more =>
    constructor
    · intro _
      rw [attempt, more, if_pos rfl]
      exact Nat.le_add_left 1 _
    · intro conn made
      rw [attempt] at made
      rw [more, numbered.later conn made, if_neg (by omega)]
  | opens closed attempt more =>
    constructor
    · intro _
      rw [attempt, more, if_pos rfl]
      exact Nat.le_add_left 1 _
    · intro conn made
      rw [attempt] at made
      have none := numbered.later conn (by omega)
      rw [more, none, if_neg (by omega)]

private theorem outstanding_le (s : SharedLink) (conn : Nat) :
    Operation.outstanding conn s.link.connects ≤ s.connectsOf conn := by
  have counted : Operation.outstanding conn s.link.connects ≤
      s.link.connects.countP (·.conn == conn) := by
    apply List.countP_mono_left
    intro op _ on
    exact (Bool.and_eq_true_iff.mp on).1
  exact Nat.le_trans counted (Nat.le_trans (Nat.le_add_right _ _) (Nat.le_add_right _ _))

theorem oneConnect_iff (s : SharedLink) : OneConnect s ↔ s.connectsOf s.link.attempt ≤ 1 :=
  ⟨OneConnect.chain, fun chain => ⟨Nat.le_trans (outstanding_le s _) chain, chain⟩⟩

private theorem oneConnect_step (numbered : Numbered s) (one : OneConnect s)
    (moves : Moves s event next) : OneConnect next ↔ ConnectsClosed s event next := by
  have single := one.chain
  rw [oneConnect_iff]
  cases moves with
  | quiet attempt same opened calm =>
    rw [attempt, same]
    exact ⟨fun _ caller called stage => absurd stage (calm caller called), fun _ => single⟩
  | closes attempt fewer closed calm =>
    rw [attempt]
    exact ⟨fun _ caller called stage => absurd stage (calm caller called),
      fun _ => Nat.le_trans (fewer _) single⟩
  | again caller called stage opened attempt more =>
    have first := numbered.opened opened
    rw [attempt, more, if_pos rfl]
    constructor
    · intro few
      omega
    · intro closed
      rw [closed caller called stage] at opened
      cases opened
  | opens closed attempt more =>
    have none := numbered.later (s.link.attempt + 1) (Nat.lt_succ_self _)
    rw [attempt, more, none, if_pos rfl]
    exact ⟨fun _ _ _ _ => closed, fun _ => Nat.le_refl 1⟩

/-- At most one connect is in progress, and a connection has at most one read
chain, in exactly the runs in which every `async_connect` finds the socket closed. -/
theorem oneConnect_iff_connectsClosed (schedule : List Event) :
    machine.Always OneConnect start schedule ↔ machine.AllSteps ConnectsClosed start schedule := by
  apply Machine.always_iff fun s => Numbered s ∧ OneConnect s
  · exact fun held => held.2
  · exact fun held taken => oneConnect_step held.1 held.2 (step_moves taken)
  · intro before event after held taken closed
    have moves := step_moves taken
    exact ⟨held.1.step moves, (oneConnect_step held.1 held.2 moves).mpr closed⟩
  · exact ⟨.start, (oneConnect_iff _).mpr (by decide)⟩

/-- The first connect is refused. Two threads then find the socket closed, and both
test the status before either of them sets it. -/
def testedTwice : List Event :=
  [.handleConnect 0 true, .act 0, .isOpen, .isOpen, .act 0, .act 1, .act 0, .act 1, .act 0,
    .act 1, .act 0, .act 0]

theorem testedTwice_twoConnects :
    ¬ machine.Always (fun s => Operation.outstanding s.link.attempt s.link.connects ≤ 1)
      start testedTwice := by
  decide +kernel

end SharedLink

end RpcLoop
