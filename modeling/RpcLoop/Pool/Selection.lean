import RpcLoop.Foundation.Machine
import RpcLoop.Pool.RoundRobin

/-! `get_client_index` with several callers. They hold the shared lock together, so
no client comes or goes, and each round of the loop is one step; clients open and
close as their connections do. Beside a call stand the value of `select_index` that
it drew first and the subscripts that other calls have drawn since. -/

namespace RpcLoop

open Foundation

/-- A call in its loop, by the rounds it has left. -/
structure SelectCall where
  rounds : Nat
  first : Option Int32 := none
  taken : List Int32 := []

/-- Another call draws. -/
def SelectCall.passed (c : SelectCall) (index : Int32) : SelectCall :=
  if c.first.isSome then { c with taken := c.taken ++ [index] } else c

/-- The calls in their loops, and what others returned. -/
structure Selecting (κ : Type) where
  pool : ClientLoopPool κ
  calls : List SelectCall := []
  returned : List Int32 := []
  fault : Bool := false

inductive SelectEvent (κ : Type) where
  | enter
  | round (caller : Nat)
  | clientRuns (position : Nat) (client : κ)

namespace Selecting

variable {κ : Type} (ops : ClientOps κ)

/-- `index=-1` is returned at once where the loop has no rounds. -/
def enter (s : Selecting κ) : Selecting κ :=
  if 0 < s.pool.curClientIndex then
    { s with calls := s.calls ++ [{ rounds := s.pool.curClientIndex.toNatClampNeg }] }
  else { s with returned := s.returned ++ [-1] }

/-- A round of the loop; the call returns at an open client and after its last round.
A subscript outside the vector ends defined behaviour. -/
def round (s : Selecting κ) (caller : Nat) : Option (Selecting κ) :=
  match s.calls[caller]? with
  | some ⟨rounds + 1, first, taken⟩ =>
    if (s.pool.clientAt s.pool.subscript).isNone then some { s with fault := true }
    else do
      let (index, answer, pool) ← s.pool.probe ops
      let calls := s.calls.map (·.passed index)
      return if answer ∨ rounds = 0 then
        { s with
          pool := pool, calls := calls.eraseIdx caller, returned := s.returned ++ [index] }
      else { s with
        pool := pool
        calls := calls.set caller ⟨rounds, some (first.getD s.pool.selectIndex), taken⟩ }
  | _ => none

/-- A client changes its state. -/
def clientRuns (s : Selecting κ) (position : Nat) (client : κ) : Selecting κ :=
  { s with pool := { s.pool with
      clientList := s.pool.clientList.modify position fun c => { c with client := client } } }

def step (s : Selecting κ) (event : SelectEvent κ) : Option (Selecting κ) :=
  if s.fault then none
  else
    match event with
    | .enter => some s.enter
    | .round caller => s.round ops caller
    | .clientRuns position client => some (s.clientRuns position client)

def machine : Machine (Selecting κ) (SelectEvent κ) where
  step := step ops

/-- The index of an open client, or -1 where there is none. -/
structure Right (answers : List Bool) (index : Int32) : Prop where
  found : true ∈ answers → 0 ≤ index ∧ answers[index.toNatClampNeg]? = some true
  none : true ∉ answers → index = -1

/-- Every call so far returned what it should. -/
structure SelectsRight (answers : List Bool) (s : Selecting κ) : Prop where
  running : s.fault = false
  right : ∀ index ∈ s.returned, Right answers index

/-- Which clients are open stays fixed: whenever a client is asked, it answers what
stands at its position. -/
def Fixed (answers : List Bool) (s : Selecting κ) (event : SelectEvent κ) (_ : Selecting κ) :
    Prop :=
  match event with
  | .round _ => ∀ c ∈ s.pool.clientAt s.pool.subscript, ∀ asked ∈ ops.isOpen c.client,
    answers[s.pool.subscript.toNatClampNeg]? = some asked.1
  | _ => True

/-- The subscripts that successive values of `select_index` give. -/
def drawn (first size : Int32) (count : Nat) : List Int32 :=
  (List.range count).map fun turn => (first + Int32.ofNat turn) % size

/-- From the first value of a call to that of its last round, other calls have not
drawn every value that falls on some open client. -/
def LeavesOpen (answers : List Bool) (s : Selecting κ) (c : SelectCall) : Prop :=
  ∃ position, answers[position]? = some true ∧
    c.taken.count (Int32.ofNat position) <
      (drawn (c.first.getD s.pool.selectIndex) s.pool.curClientIndex
        (s.pool.clientList.length + c.taken.length)).count (Int32.ofNat position)

/-- A round draws a value whose remainder designates a client, and to a call that
makes all its rounds the others leave an open client. -/
def Spared (answers : List Bool) (s : Selecting κ) (event : SelectEvent κ) (_ : Selecting κ) :
    Prop :=
  match event with
  | .round caller =>
    (0 ≤ s.pool.selectIndex.toInt ∨
      (s.pool.clientList.length : Int) ∣ s.pool.selectIndex.toInt) ∧
    ∀ c ∈ s.calls[caller]?, c.rounds = 1 → LeavesOpen answers s c
  | _ => True

/-- A round draws a value that is not negative, while no other call is between its
first round and its last. -/
def Undisturbed (s : Selecting κ) (event : SelectEvent κ) (_ : Selecting κ) : Prop :=
  match event with
  | .round caller => 0 ≤ s.pool.selectIndex.toInt ∧
    ∀ c ∈ s.calls.eraseIdx caller, c.first = none
  | _ => True

/-- The rounds that the calls may still make. -/
def left (s : Selecting κ) : Nat := (s.calls.map SelectCall.rounds).sum

/-- What a call in its loop has drawn: together with what others have drawn since, all
the values from its first one on, and no open client yet. -/
structure Drawing (answers : List Bool) (pool : ClientLoopPool κ) (c : SelectCall)
    (own : List Int32) : Prop where
  more : 0 < c.rounds
  count : own.length + c.rounds = pool.clientList.length
  closed : ∀ index ∈ own, answers[index.toNatClampNeg]? = some false
  all : (drawn (c.first.getD pool.selectIndex) pool.curClientIndex
    (own.length + c.taken.length)).Perm (own ++ c.taken)
  next : c.first.getD pool.selectIndex + Int32.ofNat (own.length + c.taken.length) =
    pool.selectIndex
  fresh : c.first = none → own = [] ∧ c.taken = []

/-- The invariant: the counter counts the clients, every call knows what it drew, and
what was returned is a position. -/
structure Going (answers : List Bool) (s : Selecting κ) : Prop extends SelectsRight answers s where
  counted : s.pool.curClientIndex.toInt = s.pool.clientList.length
  shape : answers.length = s.pool.clientList.length
  calls : ∀ c ∈ s.calls, ∃ own, Drawing answers s.pool c own
  positions : answers ≠ [] → ∀ index ∈ s.returned, 0 ≤ index

variable {ops} {answers : List Bool} {s next : Selecting κ} {pool after : ClientLoopPool κ}
  {call : SelectCall} {own : List Int32} {c : PoolClient κ} {event : SelectEvent κ}
  {index : Int32}

private theorem right_of_open (nonneg : 0 ≤ index)
    (shown : answers[index.toNatClampNeg]? = some true) : Right answers index :=
  ⟨fun _ => ⟨nonneg, shown⟩, fun none => absurd (List.mem_of_getElem? shown) none⟩

theorem Right.open_of_nonneg (right : Right answers index) (nonneg : 0 ≤ index) :
    answers[index.toNatClampNeg]? = some true := by
  by_cases someOpen : true ∈ answers
  · exact (right.found someOpen).2
  · have minus := right.none someOpen
    subst minus
    exact absurd nonneg (by decide)

/-- A round draws the next value and leaves the list as long as it was. -/
structure Draws (pool after : ClientLoopPool κ) : Prop where
  selectIndex : after.selectIndex = pool.selectIndex + 1
  curClientIndex : after.curClientIndex = pool.curClientIndex
  length : after.clientList.length = pool.clientList.length

private theorem draws_of_probe {answer : Bool}
    (probed : pool.probe ops = some (index, answer, after)) :
    Draws pool after := by
  obtain ⟨_, advanced, same⟩ := ClientLoopPool.probe_eq_some probed
  exact ⟨advanced, same.curClientIndex, same.length⟩

private theorem drawn_succ (first size : Int32) (count : Nat) :
    drawn first size (count + 1) =
      drawn first size count ++ [(first + Int32.ofNat count) % size] := by
  simp [drawn, List.range_succ]

theorem Drawing.drawn_next (drawing : Drawing answers pool call own) :
    drawn (call.first.getD pool.selectIndex) pool.curClientIndex
        (own.length + call.taken.length + 1) =
      drawn (call.first.getD pool.selectIndex) pool.curClientIndex
        (own.length + call.taken.length) ++ [pool.subscript] := by
  rw [drawn_succ, drawing.next]
  rfl

theorem next_succ {first value : Int32} {count : Nat} (next : first + Int32.ofNat count = value) :
    first + Int32.ofNat (count + 1) = value + 1 := by
  rw [← next, Int32.ofNat_add, ← Int32.add_assoc]
  rfl

theorem Drawing.passed (drawing : Drawing answers pool call own) (draws : Draws pool after) :
    Drawing answers after (call.passed pool.subscript) own := by
  obtain ⟨rounds, first, taken⟩ := call
  cases first with
  | none =>
    obtain ⟨rfl, rfl⟩ := drawing.fresh rfl
    refine ⟨drawing.more, ?_, by simp, ?_, ?_, fun _ => ⟨rfl, rfl⟩⟩
    · rw [draws.length]
      exact drawing.count
    · exact List.Perm.nil
    · exact Int32.add_zero _
  | some first =>
    refine ⟨drawing.more, ?_, drawing.closed, ?_, ?_, by simp [SelectCall.passed]⟩
    · rw [draws.length]
      exact drawing.count
    · have drawnNext := drawing.drawn_next
      simp only [SelectCall.passed, Option.isSome_some, if_true, Option.getD_some,
        List.length_append, List.length_singleton, ← Nat.add_assoc] at drawnNext ⊢
      rw [draws.curClientIndex, drawnNext, ← List.append_assoc]
      exact drawing.all.append_right _
    · simp only [SelectCall.passed, Option.isSome_some, if_true, Option.getD_some,
        List.length_append, List.length_singleton, ← Nat.add_assoc, draws.selectIndex]
      exact next_succ drawing.next

theorem Drawing.draws {rounds : Nat} {first : Option Int32} {taken : List Int32}
    (drawing : Drawing answers pool ⟨rounds + 1, first, taken⟩ own) (more : rounds ≠ 0)
    (draws : Draws pool after)
    (closed : answers[pool.subscript.toNatClampNeg]? = some false) :
    Drawing answers after ⟨rounds, some (first.getD pool.selectIndex), taken⟩
      (own ++ [pool.subscript]) := by
  have lengths : (own ++ [pool.subscript]).length + taken.length =
      own.length + taken.length + 1 := by
    simp only [List.length_append, List.length_singleton]
    omega
  refine ⟨Nat.pos_of_ne_zero more, ?_, ?_, ?_, ?_, by simp⟩
  · have count : own.length + (rounds + 1) = pool.clientList.length := drawing.count
    simp only [List.length_append, List.length_singleton, draws.length]
    omega
  · intro index member
    rcases List.mem_append.mp member with before | now
    · exact drawing.closed index before
    · rw [List.mem_singleton.mp now]
      exact closed
  · have drawnNext := drawing.drawn_next
    simp only [Option.getD_some, lengths, draws.curClientIndex] at drawnNext ⊢
    rw [drawnNext, List.append_assoc]
    refine (drawing.all.append_right [pool.subscript]).trans ?_
    rw [List.append_assoc]
    exact List.perm_append_comm.append_left own
  · simp only [Option.getD_some, lengths, draws.selectIndex]
    exact next_succ drawing.next

/-- The last round of a call meets an open client exactly when others have left it one. -/
theorem Drawing.leavesOpen_iff {caller : SelectCall}
    (drawing : Drawing answers s.pool caller own) (last : caller.rounds = 1)
    (counted : s.pool.curClientIndex.toInt = s.pool.clientList.length)
    (shape : answers.length = s.pool.clientList.length) (nonneg : 0 ≤ s.pool.subscript) :
    LeavesOpen answers s caller ↔ answers[s.pool.subscript.toNatClampNeg]? = some true := by
  have whole : s.pool.clientList.length + caller.taken.length =
      own.length + caller.taken.length + 1 := by
    have count := drawing.count
    omega
  have all : (drawn (caller.first.getD s.pool.selectIndex) s.pool.curClientIndex
      (s.pool.clientList.length + caller.taken.length)).Perm
      (own ++ caller.taken ++ [s.pool.subscript]) := by
    rw [whole, drawing.drawn_next]
    exact drawing.all.append_right _
  unfold LeavesOpen
  simp only [all.count_eq, List.count_append]
  constructor
  · rintro ⟨position, isOpen, fewer⟩
    have inside : position < s.pool.clientList.length := by
      rw [← shape]
      exact (List.getElem?_eq_some_iff.mp isOpen).1
    have place : (Int32.ofNat position).toNatClampNeg = position := by
      have bound := s.pool.curClientIndex.toInt_lt
      rw [CInt.toNatClampNeg_eq, CInt.toInt_ofNat, Int.bmod_def]
      split <;> omega
    -- Its own earlier rounds met closed clients, so the one left is that of this round.
    have missed : own.count (Int32.ofNat position) = 0 := by
      refine List.count_eq_zero.mpr fun member => ?_
      have closed := drawing.closed _ member
      rw [place, isOpen] at closed
      cases closed
    have here : Int32.ofNat position ∈ [s.pool.subscript] :=
      List.count_pos_iff.mp (by omega)
    rw [← List.mem_singleton.mp here, place]
    exact isOpen
  · intro isOpen
    have back : Int32.ofNat s.pool.subscript.toNatClampNeg = s.pool.subscript := by
      have nonneg := CInt.nonneg_iff.mp nonneg
      have bound := s.pool.subscript.toInt_lt
      rw [← Int32.toInt_inj, CInt.toInt_ofNat, CInt.toNatClampNeg_eq, Int.bmod_def]
      split <;> omega
    refine ⟨_, isOpen, ?_⟩
    rw [back, List.count_singleton_self]
    omega

/-- The three ways a round can end. -/
theorem round_cases {caller : Nat} (taken : s.round ops caller = some next) :
    ∃ rounds first before, s.calls[caller]? = some ⟨rounds + 1, first, before⟩ ∧
      (s.pool.clientAt s.pool.subscript = none ∧ next = { s with fault := true } ∨
        ∃ c answer client pool, s.pool.clientAt s.pool.subscript = some c ∧
          ops.isOpen c.client = some (answer, client) ∧ Draws s.pool pool ∧
          (answer = false ∧ rounds ≠ 0 ∧ next = { s with
              pool := pool
              calls := (s.calls.map (·.passed s.pool.subscript)).set caller
                ⟨rounds, some (first.getD s.pool.selectIndex), before⟩ } ∨
            (answer = true ∨ rounds = 0) ∧ next = { s with
              pool := pool
              calls := (s.calls.map (·.passed s.pool.subscript)).eraseIdx caller
              returned := s.returned ++ [s.pool.subscript] })) := by
  unfold Selecting.round at taken
  split at taken
  · rename_i rounds first before left
    refine ⟨rounds, first, before, left, ?_⟩
    cases found : s.pool.clientAt s.pool.subscript with
    | none =>
      rw [found] at taken
      exact .inl ⟨rfl, (Option.some.inj taken).symm⟩
    | some c =>
      rw [found] at taken
      simp only [Option.isNone_some, Bool.false_eq_true, if_false, Option.bind_eq_bind,
        Option.bind_eq_some_iff, Option.pure_def, Option.some.injEq] at taken
      obtain ⟨⟨index, answer, pool⟩, probed, taken⟩ := taken
      have draws := draws_of_probe probed
      have here : s.pool.advance.clientAt s.pool.subscript = some c := found
      rw [ClientLoopPool.probe_eq, here] at probed
      simp only [Option.bind_eq_bind, Option.bind_some, Option.bind_eq_some_iff, Option.pure_def,
        Option.some.injEq, Prod.mk.injEq] at probed
      obtain ⟨⟨_, client⟩, asked, rfl, rfl, rfl⟩ := probed
      refine .inr ⟨c, _, client, _, rfl, asked, draws, ?_⟩
      split at taken
      · rename_i ends
        exact .inr ⟨ends, taken.symm⟩
      · rename_i goesOn
        obtain ⟨closed, more⟩ := not_or.mp goesOn
        exact .inl ⟨Bool.eq_false_iff.mpr closed, more, taken.symm⟩
  · cases taken

theorem Going.passed (going : Going answers s) (draws : Draws s.pool pool) :
    ∀ c ∈ s.calls.map (·.passed s.pool.subscript), ∃ own, Drawing answers pool c own := by
  intro c member
  obtain ⟨old, before, rfl⟩ := List.mem_map.mp member
  obtain ⟨own, drawing⟩ := going.calls old before
  exact ⟨own, drawing.passed draws⟩

/-- A subscript is a client's exactly when the value drawn is not negative or divides. -/
theorem Going.clientAt_iff (going : Going answers s) (clients : 0 < s.pool.clientList.length) :
    (s.pool.clientAt s.pool.subscript).isSome = true ↔ 0 ≤ s.pool.selectIndex.toInt ∨
      (s.pool.clientList.length : Int) ∣ s.pool.selectIndex.toInt := by
  rw [← ClientLoopPool.subscript_inside_iff going.counted clients, ClientLoopPool.clientAt]
  split
  · rename_i nonneg
    have low := CInt.nonneg_iff.mp nonneg
    have place := CInt.toNatClampNeg_eq s.pool.subscript
    rw [isSome_getElem?]
    omega
  · rename_i negative
    have low : ¬ 0 ≤ s.pool.subscript.toInt := fun nonneg => negative (CInt.nonneg_iff.mpr nonneg)
    simp [low]

/-- A round is right exactly when it is spared. -/
theorem Going.round_iff (going : Going answers s) {caller : Nat}
    (taken : s.round ops caller = some next) (fixed : Fixed ops answers s (.round caller) next) :
    (SelectsRight answers next ↔ Spared answers s (.round caller : SelectEvent κ) next) ∧
      (SelectsRight answers next → Going answers next) := by
  obtain ⟨rounds, first, before, left, rest⟩ := round_cases taken
  obtain ⟨own, drawing⟩ := going.calls _ (List.mem_of_getElem? left)
  have clients : 0 < s.pool.clientList.length := by
    have count : own.length + (rounds + 1) = _ := drawing.count
    omega
  have designates := going.clientAt_iff clients
  rcases rest with ⟨outside, rfl⟩ | ⟨c, answer, client, pool, found, asked, draws, rest⟩
  · have wrong : ¬ SelectsRight answers { s with fault := true } := fun right => by
      cases right.running
    refine ⟨iff_of_false wrong fun spared => ?_, fun right => absurd right wrong⟩
    have inside := designates.mpr spared.1
    rw [outside] at inside
    cases inside
  · have shown : answers[s.pool.subscript.toNatClampNeg]? = some answer := fixed c found _ asked
    have value := designates.mp (by rw [found]; rfl)
    have nonneg : 0 ≤ s.pool.subscript := by
      unfold ClientLoopPool.clientAt at found
      split at found
      · assumption
      · cases found
    have spared : Spared answers s (.round caller : SelectEvent κ) next ↔
        (rounds = 0 → answer = true) := by
      have isLast : rounds + 1 = 1 ↔ rounds = 0 := by omega
      simp only [Spared, value, true_and, left, Option.mem_def, Option.some.injEq, forall_eq',
        isLast]
      refine imp_congr_right fun last => ?_
      rw [drawing.leavesOpen_iff (isLast.mpr last) going.counted going.shape nonneg, shown]
      simp
    have counted : pool.curClientIndex.toInt = pool.clientList.length := by
      rw [draws.curClientIndex, draws.length]
      exact going.counted
    have shape : answers.length = pool.clientList.length := by
      rw [draws.length]
      exact going.shape
    rw [spared]
    rcases rest with ⟨closed, more, rfl⟩ | ⟨ends, rfl⟩
    · have right : SelectsRight answers { s with
          pool := pool
          calls := (s.calls.map (·.passed s.pool.subscript)).set caller
            ⟨rounds, some (first.getD s.pool.selectIndex), before⟩ } :=
        ⟨going.running, going.right⟩
      refine ⟨iff_of_true right fun last => absurd last more, fun _ =>
        ⟨right, counted, shape, ?_, going.positions⟩⟩
      intro other member
      rcases List.mem_or_eq_of_mem_set member with old | rfl
      · exact going.passed draws other old
      · exact ⟨_, drawing.draws more draws (closed ▸ shown)⟩
    · have calls : ∀ c ∈ (s.calls.map (·.passed s.pool.subscript)).eraseIdx caller,
          ∃ own, Drawing answers pool c own :=
        fun c member => going.passed draws c (List.mem_of_mem_eraseIdx member)
      have positions : ∀ index ∈ s.returned ++ [s.pool.subscript], answers ≠ [] → 0 ≤ index := by
        intro index member some
        rcases List.mem_append.mp member with old | last
        · exact going.positions some index old
        · rw [List.mem_singleton.mp last]
          exact nonneg
      refine ⟨?_, fun right => ⟨right, counted, shape, calls, fun some index member =>
        positions index member some⟩⟩
      constructor
      · intro right last
        have returned := right.right s.pool.subscript (by simp)
        have isOpen := returned.open_of_nonneg nonneg
        rw [shown] at isOpen
        exact Option.some.inj isOpen
      · intro atLast
        have isOpen : answer = true := by
          rcases ends with isOpen | last
          · exact isOpen
          · exact atLast last
        refine ⟨going.running, fun index member => ?_⟩
        rcases List.mem_append.mp member with old | last
        · exact going.right index old
        · rw [List.mem_singleton.mp last]
          exact right_of_open nonneg (isOpen ▸ shown)

theorem Going.enter (going : Going answers s) : Going answers s.enter := by
  have counted := going.counted
  unfold Selecting.enter
  split
  · rename_i clients
    have positive : (0 : Int32).toInt < s.pool.curClientIndex.toInt :=
      Int32.lt_iff_toInt_lt.mp clients
    rw [Int32.toInt_zero] at positive
    refine ⟨⟨going.running, going.right⟩, counted, going.shape, fun c member => ?_,
      going.positions⟩
    rcases List.mem_append.mp member with before | new
    · exact going.calls c before
    · rw [List.mem_singleton.mp new]
      refine ⟨[], ?_, ?_, by simp, .nil, Int32.add_zero _, fun _ => ⟨rfl, rfl⟩⟩
      · change 0 < s.pool.curClientIndex.toInt.toNat
        omega
      · change 0 + s.pool.curClientIndex.toInt.toNat = s.pool.clientList.length
        omega
  · rename_i empty
    have least : ¬ (0 : Int32).toInt < s.pool.curClientIndex.toInt :=
      fun clients => empty (Int32.lt_iff_toInt_lt.mpr clients)
    rw [Int32.toInt_zero] at least
    have none : answers = [] := List.length_eq_zero_iff.mp (by rw [going.shape]; omega)
    refine ⟨⟨going.running, ?_⟩, counted, going.shape, going.calls, fun some => absurd none some⟩
    intro index member
    rcases List.mem_append.mp member with before | last
    · exact going.right index before
    · refine ⟨fun found => ?_, fun _ => List.mem_singleton.mp last⟩
      simp [none] at found

theorem Going.clientRuns (going : Going answers s) (position : Nat) (client : κ) :
    Going answers (s.clientRuns position client) := by
  have length : (s.clientRuns position client).pool.clientList.length = s.pool.clientList.length :=
    List.length_modify _ _ _
  refine ⟨⟨going.running, going.right⟩, ?_, ?_, fun c member => ?_, going.positions⟩
  · rw [length]
    exact going.counted
  · rw [length]
    exact going.shape
  · obtain ⟨own, drawing⟩ := going.calls c member
    refine ⟨own, drawing.more, ?_, drawing.closed, drawing.all, drawing.next, drawing.fresh⟩
    rw [length]
    exact drawing.count

/-- What one step does to calls that were right so far. -/
theorem Going.step_iff (going : Going answers s) (taken : s.step ops event = some next)
    (fixed : Fixed ops answers s event next) :
    (SelectsRight answers next ↔ Spared answers s event next) ∧
      (SelectsRight answers next → Going answers next) := by
  simp only [step, going.running, Bool.false_eq_true, if_false] at taken
  cases event with
  | enter =>
    cases taken
    exact ⟨iff_of_true going.enter.toSelectsRight trivial, fun _ => going.enter⟩
  | round caller => exact going.round_iff taken fixed
  | clientRuns position client =>
    cases taken
    exact ⟨iff_of_true (going.clientRuns position client).toSelectsRight trivial,
      fun _ => going.clientRuns position client⟩

private theorem going_start (counted : pool.curClientIndex.toInt = pool.clientList.length)
    (shape : answers.length = pool.clientList.length) :
    Going answers ({ pool := pool } : Selecting κ) :=
  ⟨⟨rfl, by simp⟩, counted, shape, by simp, by simp⟩

/-- Spared runs keep the invariant. -/
theorem Going.run (going : Going answers s) {schedule : List (SelectEvent κ)}
    (fixed : (machine ops).AllSteps (Fixed ops answers) s schedule)
    (spared : (machine ops).AllSteps (Spared answers) s schedule)
    (reached : (machine ops).run s schedule = some next) : Going answers next := by
  refine Machine.run_invariant (Going answers) _ ?_ going (fixed.and spared) reached
  intro before event after going taken guard
  have step := going.step_iff taken guard.1
  exact step.2 (step.1.mpr guard.2)

theorem Going.always_iff (going : Going answers s) {schedule : List (SelectEvent κ)}
    (fixed : (machine ops).AllSteps (Fixed ops answers) s schedule) :
    (machine ops).Always (SelectsRight answers) s schedule ↔
      (machine ops).AllSteps (Spared answers) s schedule := by
  rw [Machine.always_iff_allSteps, and_iff_right going.toSelectsRight]
  refine Machine.allSteps_iff_assuming (Going answers)
    (fun going taken fixed => (going.step_iff taken fixed).1) ?_ going fixed
  intro before event after going taken fixed spared
  have step := going.step_iff taken fixed
  exact step.2 (step.1.mpr spared)

theorem Going.usable (going : Going answers s) (some : s.returned ≠ []) :
    answers = [] ∨ true ∈ answers := by
  obtain ⟨index, member⟩ := List.exists_mem_of_ne_nil _ some
  by_contra useless
  obtain ⟨clients, closed⟩ := not_or.mp useless
  have minus := (going.right index member).none closed
  have nonneg := going.positions clients index member
  subst minus
  exact absurd nonneg (by decide)

/-! ### Calls come to an end -/

private theorem rounds_passed (calls : List SelectCall) (index : Int32) :
    (calls.map (·.passed index)).map SelectCall.rounds = calls.map SelectCall.rounds := by
  rw [List.map_map]
  refine List.map_congr_left fun c _ => ?_
  simp only [Function.comp_apply, SelectCall.passed]
  split <;> rfl

private theorem left_of_round {caller : Nat} (taken : s.round ops caller = some next)
    (running : next.fault = false) : next.left < s.left := by
  obtain ⟨rounds, first, before, found, rest⟩ := round_cases taken
  have same := rounds_passed s.calls s.pool.subscript
  have there : (s.calls.map (·.passed s.pool.subscript))[caller]? =
      some (SelectCall.passed ⟨rounds + 1, first, before⟩ s.pool.subscript) := by
    simp [found]
  have more : (SelectCall.passed ⟨rounds + 1, first, before⟩ s.pool.subscript).rounds =
      rounds + 1 := by
    unfold SelectCall.passed
    split <;> rfl
  unfold left
  rcases rest with ⟨_, rfl⟩ | ⟨c, answer, client, pool, _, _, _, ⟨_, _, rfl⟩ | ⟨_, rfl⟩⟩
  · cases running
  · obtain ⟨early, late, split, replaced⟩ := split_of_set there
    rw [← same, replaced, split]
    simp only [List.map_append, List.map_cons, List.sum_append, List.sum_cons]
    omega
  · obtain ⟨early, late, split, _, erased⟩ := split_of_getElem? there
    rw [← same, erased, split]
    simp only [List.map_append, List.map_cons, List.sum_append, List.sum_cons]
    omega

theorem Going.round_isSome (going : Going answers s) {caller : Nat}
    (inside : caller < s.calls.length)
    (answering : ∀ c ∈ s.pool.clientAt s.pool.subscript, (ops.isOpen c.client).isSome = true) :
    ∃ next, s.step ops (.round caller) = some next := by
  have found : s.calls[caller]? = some s.calls[caller] := List.getElem?_eq_getElem inside
  obtain ⟨own, drawing⟩ := going.calls _ (List.mem_of_getElem? found)
  have more := drawing.more
  revert found more
  obtain ⟨rounds, first, taken⟩ := s.calls[caller]
  intro found more
  obtain ⟨rounds, rfl⟩ := Nat.exists_eq_succ_of_ne_zero (Nat.ne_of_gt more)
  simp only [Selecting.step, going.running, Bool.false_eq_true, if_false, Selecting.round, found]
  cases there : s.pool.clientAt s.pool.subscript with
  | none => exact ⟨_, rfl⟩
  | some c =>
    obtain ⟨⟨answer, client⟩, asked⟩ := Option.isSome_iff_exists.mp (answering c there)
    have here : s.pool.advance.clientAt s.pool.subscript = some c := there
    simp [ClientLoopPool.probe_eq, here, asked]

/-! ### Calls that do not disturb each other -/

private theorem drawn_eq_subscripts (pool : ClientLoopPool κ) (count : Nat) :
    drawn pool.selectIndex pool.curClientIndex count = pool.subscripts count := by
  refine List.map_congr_left fun turn _ => ?_
  rw [ClientLoopPool.subscript, ClientLoopPool.selectIndex_advanceBy,
    ClientLoopPool.curClientIndex_advanceBy]

/-- No call was disturbed, and each drew its first value before the counter wrapped. -/
def Calm (s : Selecting κ) : Prop :=
  ∀ c ∈ s.calls, c.taken = [] ∧ ∀ first ∈ c.first, 0 ≤ first.toInt

theorem Calm.step (calm : Calm s) (taken : s.step ops event = some next)
    (undisturbed : Undisturbed s event next) : Calm next := by
  unfold Selecting.step at taken
  split at taken
  · cases taken
  · cases event with
    | enter =>
      cases taken
      unfold Selecting.enter
      split
      · intro c member
        rcases List.mem_append.mp member with before | new
        · exact calm c before
        · rw [List.mem_singleton.mp new]
          exact ⟨rfl, by simp⟩
      · exact calm
    | clientRuns position client =>
      cases taken
      exact calm
    | round caller =>
      obtain ⟨nonneg, alone⟩ := undisturbed
      obtain ⟨rounds, first, before, left, rest⟩ := round_cases taken
      -- The other calls have not begun.
      have others : ∀ other c, (s.calls.map (·.passed s.pool.subscript))[other]? = some c →
          other ≠ caller → c.taken = [] ∧ ∀ first ∈ c.first, 0 ≤ first.toInt := by
        intro other c found apart
        obtain ⟨old, there, rfl⟩ := by simpa using found
        have fresh := alone old (List.mem_eraseIdx_iff_getElem?.mpr ⟨other, apart, there⟩)
        have same : old.passed s.pool.subscript = old := by
          simp [SelectCall.passed, fresh]
        rw [same]
        exact calm old (List.mem_of_getElem? there)
      have own := calm _ (List.mem_of_getElem? left)
      rcases rest with ⟨_, rfl⟩ | ⟨c, answer, client, pool, _, _, _, ⟨_, _, rfl⟩ | ⟨_, rfl⟩⟩
      · exact calm
      · intro c member
        obtain ⟨other, found⟩ := List.getElem?_of_mem member
        by_cases here : other = caller
        · subst here
          have inside : other < (s.calls.map (·.passed s.pool.subscript)).length := by
            rw [List.length_map]
            exact (List.getElem?_eq_some_iff.mp left).1
          rw [List.getElem?_set_self inside] at found
          cases found
          refine ⟨own.1, fun value same => ?_⟩
          cases same
          cases first with
          | none => exact nonneg
          | some first => exact own.2 first rfl
        · rw [List.getElem?_set_ne (Ne.symm here)] at found
          exact others other c found here
      · intro c member
        obtain ⟨other, apart, found⟩ := List.mem_eraseIdx_iff_getElem?.mp member
        exact others other c found apart

theorem Going.leavesOpen (going : Going answers s) (calm : Calm s) {caller : SelectCall}
    (member : caller ∈ s.calls) (last : caller.rounds = 1)
    (nonneg : 0 ≤ s.pool.selectIndex.toInt) (someOpen : true ∈ answers) :
    LeavesOpen answers s caller := by
  obtain ⟨own, drawing⟩ := going.calls caller member
  obtain ⟨none, first⟩ := calm caller member
  obtain ⟨position, isOpen⟩ := List.getElem?_of_mem someOpen
  have inside : position < s.pool.clientList.length := by
    rw [← going.shape]
    exact (List.getElem?_eq_some_iff.mp isOpen).1
  refine ⟨position, isOpen, ?_⟩
  obtain ⟨value, chosen⟩ : ∃ value, caller.first.getD s.pool.selectIndex = value := ⟨_, rfl⟩
  have low : 0 ≤ value.toInt := by
    rw [← chosen]
    cases begun : caller.first with
    | none => exact nonneg
    | some first' => exact first first' begun
  have count := drawing.count
  have now := congrArg Int32.toInt drawing.next
  rw [chosen, none, List.length_nil, Nat.add_zero, CInt.toInt_counter, Int.bmod_def] at now
  have bound := s.pool.curClientIndex.toInt_lt
  have high := value.toInt_lt
  have counted := going.counted
  have fits : value.toInt + s.pool.clientList.length ≤ 2 ^ 31 := by
    split at now <;> omega
  have round : ClientLoopPool.RoundRobin { s.pool with selectIndex := value } :=
    (ClientLoopPool.RoundRobin.iff_counter (s := { s.pool with selectIndex := value })
      counted (Nat.one_le_of_lt inside)).mpr (.inr ⟨low, .inl fits⟩)
  have once := round.once position inside
  rw [← drawn_eq_subscripts] at once
  rw [chosen, none, List.length_nil, Nat.add_zero]
  exact Nat.lt_of_lt_of_eq Nat.zero_lt_one once.symm

theorem Going.spared (going : Going answers s) (calm : Calm s)
    (undisturbed : Undisturbed s event next) (usable : answers = [] ∨ true ∈ answers) :
    Spared answers s event next := by
  cases event with
  | round caller =>
    refine ⟨.inl undisturbed.1, fun c found last => ?_⟩
    have member := List.mem_of_getElem? found
    rcases usable with empty | someOpen
    · obtain ⟨own, drawing⟩ := going.calls c member
      have count := drawing.count
      have more := drawing.more
      rw [← going.shape, empty, List.length_nil] at count
      omega
    · exact going.leavesOpen calm member last undisturbed.1 someOpen
  | _ => trivial

/-- However many calls share the counter, from whatever value it has: while the open
clients stay the same, all calls return what they should exactly when each round draws
a value that designates a client, and no call makes all its rounds because others have
taken every value that falls on an open client. Such calls come to an end: each can
make its next round, after which there are fewer. Where calls do not come between each
other, they are right exactly when some client is open or there is none. -/
theorem selectsRight_iff_spared (ops : ClientOps κ) (answers : List Bool)
    (pool : ClientLoopPool κ) (counted : pool.curClientIndex.toInt = pool.clientList.length)
    (shape : answers.length = pool.clientList.length) (schedule : List (SelectEvent κ))
    (fixed : (machine ops).AllSteps (Fixed ops answers) { pool := pool } schedule) :
    ((machine ops).Always (SelectsRight answers) { pool := pool } schedule ↔
      (machine ops).AllSteps (Spared answers) { pool := pool } schedule) ∧
    ∀ s, (machine ops).run { pool := pool } schedule = some s →
      ((machine ops).AllSteps (Spared answers) { pool := pool } schedule →
        ∀ caller < s.calls.length,
          (∀ c ∈ s.pool.clientAt s.pool.subscript, (ops.isOpen c.client).isSome = true) →
          ∃ next, s.step ops (.round caller) = some next ∧
            (next.fault = false → next.left < s.left)) ∧
      (s.returned ≠ [] → (machine ops).AllSteps Undisturbed { pool := pool } schedule →
        ((machine ops).Always (SelectsRight answers) { pool := pool } schedule ↔
          answers = [] ∨ true ∈ answers)) := by
  have start := going_start counted shape
  refine ⟨start.always_iff fixed, fun s reached => ⟨?_, fun some => ?_⟩⟩
  · intro spared caller inside answering
    have going := start.run fixed spared reached
    obtain ⟨next, taken⟩ := going.round_isSome inside answering
    have round : s.round ops caller = Option.some next := by
      simpa only [Selecting.step, going.running, Bool.false_eq_true, if_false] using taken
    exact ⟨next, taken, fun running => left_of_round round running⟩
  · intro undisturbed
    constructor
    · intro always
      have going := start.run fixed ((start.always_iff fixed).mp always) reached
      exact going.usable some
    · intro usable
      refine Machine.always_of_guarded (fun s => Going answers s ∧ Calm s)
        (fun held => held.1.toSelectsRight) ?_ ⟨start, by simp [Calm]⟩ (fixed.and undisturbed)
      rintro before event after ⟨going, calm⟩ taken ⟨fixed, undisturbed⟩
      have step := going.step_iff taken fixed
      exact ⟨step.2 (step.1.mpr (going.spared calm undisturbed usable)),
        calm.step taken undisturbed⟩

instance (ops : ClientOps κ) (answers : List Bool) (s : Selecting κ) (event : SelectEvent κ)
    (next : Selecting κ) : Decidable (Fixed ops answers s event next) :=
  match event with
  | .round _ => inferInstanceAs (Decidable
    (∀ c ∈ s.pool.clientAt s.pool.subscript, ∀ asked ∈ ops.isOpen c.client,
      answers[s.pool.subscript.toNatClampNeg]? = some asked.1))
  | .enter | .clientRuns _ _ => isTrue trivial

instance (s : Selecting κ) (event : SelectEvent κ) (next : Selecting κ) :
    Decidable (Undisturbed s event next) :=
  match event with
  | .round caller => inferInstanceAs (Decidable
    (0 ≤ s.pool.selectIndex.toInt ∧ ∀ c ∈ s.calls.eraseIdx caller, c.first = none))
  | .enter | .clientRuns _ _ => isTrue trivial

/-- A client whose connect was refused, so that its socket is closed. -/
def refused : ClientLoop :=
  ((ClientLoop.start .on).invokeConnect 0 true).getD (.start .on)

/-- A client that is closed and one that is connecting. -/
def mixedPool : ClientLoopPool ClientLoop where
  clientList := [{ ident := 0, hashKey := 0, client := refused },
    { ident := 1, hashKey := 1, client := .start .on }]
  curClientIndex := 2

/-- Two calls one behind the other. The closed client connects again when it is
asked, and is refused again before the second call. -/
def oneByOne : List (SelectEvent ClientLoop) :=
  [.enter, .round 0, .clientRuns 0 refused, .round 0, .enter, .round 0, .round 0]

theorem oneByOne_selectsRight :
    (machine (ClientLoop.poolOps .littleEndian fun _ => true)).Always (SelectsRight [false, true])
      { pool := mixedPool } oneByOne := by
  have runs : ((machine (ClientLoop.poolOps .littleEndian fun _ => true)).run
      { pool := mixedPool } oneByOne).map (·.returned) = some [1, 1] := by
    decide +kernel
  obtain ⟨s, reached, returned⟩ := Option.map_eq_some_iff.mp runs
  have both := selectsRight_iff_spared (ClientLoop.poolOps .littleEndian fun _ => true)
    [false, true] mixedPool (by decide) rfl oneByOne (by decide +kernel)
  exact ((both.2 s reached).2 (by simp [returned]) (by decide +kernel)).mpr (.inr (by decide))

/-- A pool whose only client is closed. -/
def closedPool : ClientLoopPool ClientLoop where
  clientList := [{ ident := 0, hashKey := 0, client := refused }]
  curClientIndex := 1

/-- The index of the closed client is returned. -/
theorem closedClient_returned :
    (machine (ClientLoop.poolOps .littleEndian fun _ => true)).AllSteps
        (Fixed (ClientLoop.poolOps .littleEndian fun _ => true) [false])
        { pool := closedPool } [.enter, .round 0] ∧
      ¬ (machine (ClientLoop.poolOps .littleEndian fun _ => true)).Always (SelectsRight [false])
        { pool := closedPool } [.enter, .round 0] := by
  refine ⟨by decide +kernel, fun always => ?_⟩
  have runs : ((machine (ClientLoop.poolOps .littleEndian fun _ => true)).run
      { pool := closedPool } [.enter, .round 0]).map (·.returned) = some [0] := by
    decide +kernel
  obtain ⟨final, reached, returned⟩ := Option.map_eq_some_iff.mp runs
  have right := (always.final reached).right 0 (by simp [returned])
  exact absurd (right.none (by decide)) (by decide)

end Selecting

end RpcLoop
