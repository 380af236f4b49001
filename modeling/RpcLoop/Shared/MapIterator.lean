import RpcLoop.Foundation.Machine
import RpcLoop.Foundation.MapPosition

/-! Iteration over a `SafeMap`. An iterator holds a copy of the map it was made
from and the key it stands at, which each increment looks up in the copy; calls
on the map itself go on meanwhile. Copies of iterators are deep, so an iterator
is a value. -/

namespace RpcLoop.Shared

open Foundation

universe u v

/-- `WDItr`. The constructors leave `first` and `second` unset. -/
structure WDItr (κ : Type u) (α : Type v) [Ord κ] where
  isEnd : Bool
  first : κ
  second : α
  tempMap : Std.TreeMap κ α
  oldSelf : Option (WDItr κ α)

namespace WDItr

variable {κ : Type u} {α : Type v} [Ord κ]

/-- `WDItr()`, over the values its unset members happen to have. -/
def new (unset : κ × α) : WDItr κ α where
  isEnd := true
  first := unset.1
  second := unset.2
  tempMap := ∅
  oldSelf := none

/-- `WDItr(t_map)`. -/
def ofMap (tMap : Std.TreeMap κ α) (unset : κ × α) : WDItr κ α where
  isEnd := true
  first := unset.1
  second := unset.2
  tempMap := tMap
  oldSelf := none

/-- The iterator stands at the first entry of a position, where there is one. -/
def atPosition (it : WDItr κ α) : List (κ × α) → WDItr κ α
  | [] => it
  | (key, val) :: _ => { it with isEnd := false, first := key, second := val }

/-- `++it`. -/
def preIncrement (it : WDItr κ α) : WDItr κ α :=
  match MapPosition.find it.tempMap it.first with
  | [] => { it with isEnd := true }
  | _ :: [] => { it with isEnd := true }
  | _ :: next :: rest => it.atPosition (next :: rest)

/-- `it++`: the copy of the old iterator that it returns, and the iterator. -/
def postIncrement (it : WDItr κ α) : WDItr κ α × WDItr κ α :=
  let old := { it with oldSelf := none }
  (old, { it with oldSelf := some old }.preIncrement)

variable [DecidableEq κ]

/-- `operator==`. -/
def equals (it val : WDItr κ α) : Bool :=
  if it.isEnd = true ∧ val.isEnd = true then true
  else if it.isEnd = val.isEnd ∧ it.first = val.first then true
  else false

/-- `operator!=`. -/
def differs (it val : WDItr κ α) : Bool := !it.equals val

end WDItr

/-! ### `SafeMap` -/

namespace MapIterator

variable {κ : Type u} {α : Type v} [Ord κ]

/-- `SafeMap::end`. -/
def endItr (unset : κ × α) : WDItr κ α := .new unset

/-- The keys do not matter to a comparison with `end()`. -/
theorem equals_endItr [DecidableEq κ] (it : WDItr κ α) (unset : κ × α) :
    it.equals (endItr unset) = it.isEnd := by
  unfold WDItr.equals
  cases it.isEnd <;> simp [endItr, WDItr.new]

private theorem differs_endItr [DecidableEq κ] (it : WDItr κ α) (unset : κ × α) :
    it.differs (endItr unset) = !it.isEnd := by
  rw [WDItr.differs, equals_endItr]

/-- `SafeMap::begin`. -/
def begin (wdmap : Std.TreeMap κ α) (unset : κ × α) : WDItr κ α :=
  (WDItr.ofMap wdmap unset).atPosition wdmap.toList

/-- `SafeMap::find`. -/
def find (wdmap : Std.TreeMap κ α) (tKey : κ) (unset : κ × α) : WDItr κ α :=
  (WDItr.ofMap wdmap unset).atPosition (MapPosition.find wdmap tKey)

/-- `SafeMap::insert`, which leaves an entry that is there. -/
def insert (wdmap : Std.TreeMap κ α) (tKey : κ) (tVal : α) : Std.TreeMap κ α :=
  wdmap.insertIfNew tKey tVal

/-- `SafeMap::erase(key)`. -/
def erase (wdmap : Std.TreeMap κ α) (tKey : κ) : Std.TreeMap κ α := wdmap.erase tKey

/-- `SafeMap::update(key, val)`. -/
def update (wdmap : Std.TreeMap κ α) (tKey : κ) (tVal : α) : Bool × Std.TreeMap κ α :=
  if tKey ∈ wdmap then (true, wdmap.insert tKey tVal) else (false, wdmap)

/-- `SafeMap::operator[]`, which adds a default-constructed value. -/
def subscript [Inhabited α] (wdmap : Std.TreeMap κ α) (tKey : κ) : Std.TreeMap κ α :=
  wdmap.insertIfNew tKey default

/-- A call on the map, or an assignment through the reference of `operator[]`. -/
inductive MapCall (κ : Type u) (α : Type v) where
  | insert (tKey : κ) (tVal : α)
  | erase (tKey : κ)
  | update (tKey : κ) (tVal : α)
  | subscript (tKey : κ)
  | assign (tKey : κ) (tVal : α)

def MapCall.run [Inhabited α] (wdmap : Std.TreeMap κ α) : MapCall κ α → Std.TreeMap κ α
  | .insert tKey tVal => MapIterator.insert wdmap tKey tVal
  | .erase tKey => MapIterator.erase wdmap tKey
  | .update tKey tVal => (MapIterator.update wdmap tKey tVal).2
  | .subscript tKey => MapIterator.subscript wdmap tKey
  | .assign tKey tVal => (MapIterator.update wdmap tKey tVal).2

/-! ### The loop -/

/-- Where `for (; it != end(); it++)` is. -/
inductive Stage where
  | test
  | body
  | ended
  deriving DecidableEq

/-- The loop beside the map that is in use. -/
structure Iteration (κ : Type u) (α : Type v) [Ord κ] where
  wdmap : Std.TreeMap κ α
  it : WDItr κ α
  stage : Stage
  visited : List (κ × α)

/-- A call of any thread, the test against an end iterator, and an increment in
its postfix or prefix form. -/
inductive Event (κ : Type u) (α : Type v) where
  | call (call : MapCall κ α)
  | test (unset : κ × α)
  | increment (post : Bool)

def Event.isTest : Event κ α → Bool
  | .test _ => true
  | _ => false

/-- The body of the loop sees the members of the iterator. -/
def step [Inhabited α] [DecidableEq κ] (s : Iteration κ α) : Event κ α → Option (Iteration κ α)
  | .call call => some { s with wdmap := call.run s.wdmap }
  | .test unset =>
    if s.stage = .test then
      if s.it.differs (endItr unset) then
        some { s with stage := .body, visited := s.visited ++ [(s.it.first, s.it.second)] }
      else some { s with stage := .ended }
    else none
  | .increment post =>
    if s.stage = .body then
      some { s with
        it := if post then s.it.postIncrement.2 else s.it.preIncrement
        stage := .test }
    else none

def machine [Inhabited α] [DecidableEq κ] : Machine (Iteration κ α) (Event κ α) where
  step := step

def start (wdmap : Std.TreeMap κ α) (it : WDItr κ α) : Iteration κ α where
  wdmap := wdmap
  it := it
  stage := .test
  visited := []

/-- The iterator stands at a position of the map it was made from. -/
def StandsAt (m : Std.TreeMap κ α) (it : WDItr κ α) : List (κ × α) → Prop
  | [] => it.tempMap = m ∧ it.isEnd = true
  | (key, val) :: _ => it.tempMap = m ∧ it.isEnd = false ∧ it.first = key ∧ it.second = val

/-- Where the loop over the entries of a position is after some number of tests. -/
inductive Walk (m : Std.TreeMap κ α) (entries : List (κ × α)) (s : Iteration κ α) : Nat → Prop where
  | test (done todo : List (κ × α)) (split : entries = done ++ todo) (stage : s.stage = .test)
      (stands : StandsAt m s.it todo) (visited : s.visited = done) : Walk m entries s done.length
  | body (done : List (κ × α)) (entry : κ × α) (rest : List (κ × α))
      (split : entries = done ++ entry :: rest) (stage : s.stage = .body)
      (stands : StandsAt m s.it (entry :: rest)) (visited : s.visited = done ++ [entry]) :
      Walk m entries s (done.length + 1)
  | ended (stage : s.stage = .ended) (visited : s.visited = entries) :
      Walk m entries s (entries.length + 1)

/-- What the loop has seen of a map when it was started at its keys of a kind:
its tests are limited and it is never stuck, entries come in the order of their
keys, and when it is over all those entries of the map have been visited. -/
structure Snapshot [Inhabited α] [DecidableEq κ] (m : Std.TreeMap κ α) (kind : κ → Prop)
    (tests : Nat) (s : Iteration κ α) : Prop where
  terminates : tests ≤ m.size + 1
  goesOn : s.stage ≠ .ended → ∀ post unset, (step s (.test unset)).isSome = true ∨
    (step s (.increment post)).isSome = true
  ascending : s.visited.Pairwise fun first second => compare first.1 second.1 = .lt
  present : ∀ key val, (key, val) ∈ s.visited → kind key ∧ m[key]? = some val
  complete : s.stage = .ended → ∀ key val, kind key → m[key]? = some val → (key, val) ∈ s.visited

section

variable [Std.TransOrd κ] [Std.LawfulEqOrd κ] {m : Std.TreeMap κ α} {it : WDItr κ α}
  {entries front : List (κ × α)} {s next : Iteration κ α}

omit [Std.TransOrd κ] [Std.LawfulEqOrd κ] in
private theorem standsAt_ofMap (m : Std.TreeMap κ α) (unset : κ × α) (entries : List (κ × α)) :
    StandsAt m ((WDItr.ofMap m unset).atPosition entries) entries := by
  cases entries with
  | nil => exact ⟨rfl, rfl⟩
  | cons entry rest => exact ⟨rfl, rfl, rfl, rfl⟩

/-- An increment moves an iterator that stands at an entry to the next position. -/
theorem StandsAt.preIncrement {entry : κ × α} {rest : List (κ × α)}
    (stands : StandsAt m it (entry :: rest)) (split : m.toList = front ++ entry :: rest) :
    StandsAt m it.preIncrement rest := by
  obtain ⟨key, val⟩ := entry
  obtain ⟨rfl, -, rfl, rfl⟩ := stands
  rw [WDItr.preIncrement, MapPosition.find_of_split split]
  cases rest with
  | nil => exact ⟨rfl, rfl⟩
  | cons following rest => exact ⟨rfl, rfl, rfl, rfl⟩

theorem StandsAt.postIncrement {entry : κ × α} {rest : List (κ × α)}
    (stands : StandsAt m it (entry :: rest)) (split : m.toList = front ++ entry :: rest) :
    StandsAt m it.postIncrement.2 rest := by
  have copied : StandsAt m { it with oldSelf := some { it with oldSelf := none } }
    (entry :: rest) := stands
  exact copied.preIncrement split

variable [Inhabited α] [DecidableEq κ]

/-- Calls on the map do not move the loop; tests and increments take it to the next entry. -/
theorem Walk.step {tests : Nat} (walk : Walk m entries s tests)
    (position : m.toList = front ++ entries) {event : Event κ α}
    (taken : step s event = some next) :
    Walk m entries next (tests + [event].countP Event.isTest) := by
  cases event with
  | call call =>
    cases taken
    cases walk with
    | test done todo split stage stands visited => exact .test done todo split stage stands visited
    | body done entry rest split stage stands visited =>
      exact .body done entry rest split stage stands visited
    | ended stage visited => exact .ended stage visited
  | test unset =>
    simp only [MapIterator.step] at taken
    split at taken
    · rename_i stage
      cases walk with
      | test done todo split _ stands visited =>
        rw [differs_endItr] at taken
        cases todo with
        | nil =>
          rw [stands.2] at taken
          cases taken
          have all : done = entries := by rw [split, List.append_nil]
          subst all
          exact .ended rfl visited
        | cons entry rest =>
          obtain ⟨map, inside, key, val⟩ := stands
          rw [inside] at taken
          cases taken
          refine .body done entry rest split rfl ⟨map, inside, key, val⟩ ?_
          rw [visited, key, val]
      | body done entry rest split body => cases stage.symm.trans body
      | ended after => cases stage.symm.trans after
    · cases taken
  | increment post =>
    simp only [MapIterator.step] at taken
    split at taken
    · rename_i stage
      cases taken
      cases walk with
      | test done todo split test => cases stage.symm.trans test
      | ended after => cases stage.symm.trans after
      | body done entry rest split _ stands visited =>
        have whole : m.toList = (front ++ done) ++ entry :: rest := by
          rw [position, split, List.append_assoc]
        have again : entries = (done ++ [entry]) ++ rest := by rw [split]; simp
        have moved :
            StandsAt m (if post then s.it.postIncrement.2 else s.it.preIncrement) rest := by
          cases post with
          | true => exact stands.postIncrement whole
          | false => exact stands.preIncrement whole
        have walked := Walk.test (s := { s with
          it := if post then s.it.postIncrement.2 else s.it.preIncrement
          stage := .test }) (done ++ [entry]) rest again rfl moved visited
        simpa [Event.isTest] using walked
    · cases taken

theorem Walk.run {tests : Nat} (walk : Walk m entries s tests)
    (position : m.toList = front ++ entries) {schedule : List (Event κ α)}
    {final : Iteration κ α} (runs : machine.run s schedule = some final) :
    Walk m entries final (tests + schedule.countP Event.isTest) := by
  induction schedule generalizing s tests with
  | nil =>
    cases Option.some.inj runs
    exact walk
  | cons event rest ih =>
    obtain ⟨middle, taken, later⟩ := Machine.run_cons_eq_some.mp runs
    have walked := ih (walk.step position taken) later
    have counts : (event :: rest).countP Event.isTest =
        [event].countP Event.isTest + rest.countP Event.isTest := by
      rw [List.countP_cons, List.countP_singleton, Nat.add_comm]
    rw [counts, ← Nat.add_assoc]
    exact walked

omit [Std.TransOrd κ] [Std.LawfulEqOrd κ] in
private theorem step_isSome (going : s.stage ≠ .ended) (post : Bool) (unset : κ × α) :
    (step s (.test unset)).isSome = true ∨ (step s (.increment post)).isSome = true := by
  cases stage : s.stage with
  | test =>
    left
    simp only [MapIterator.step, if_pos stage]
    split <;> rfl
  | body =>
    right
    simp only [MapIterator.step, if_pos stage]
    rfl
  | ended => exact absurd stage going

omit [Std.TransOrd κ] [Std.LawfulEqOrd κ] [Inhabited α] [DecidableEq κ] in
theorem Walk.visited {tests : Nat} (walk : Walk m entries s tests) :
    ∃ todo, entries = s.visited ++ todo ∧ tests ≤ s.visited.length + 1 ∧
      (s.stage = .ended → todo = []) := by
  cases walk with
  | test done todo split stage stands visited =>
    refine ⟨todo, by rw [visited, split], ?_, fun ended => ?_⟩
    · rw [visited]
      exact Nat.le_succ _
    · cases stage.symm.trans ended
  | body done entry rest split stage stands visited =>
    refine ⟨rest, ?_, ?_, fun ended => ?_⟩
    · rw [visited, split]
      simp
    · rw [visited, List.length_append]
      exact Nat.le_succ _
    · cases stage.symm.trans ended
  | ended stage visited =>
    refine ⟨[], ?_, ?_, fun _ => rfl⟩
    · rw [visited, List.append_nil]
    · rw [visited]

omit [Std.LawfulEqOrd κ] in
theorem Walk.snapshot {tests : Nat} (walk : Walk m entries s tests)
    (position : m.toList = front ++ entries) {kind : κ → Prop}
    (kinds : ∀ key val, (key, val) ∈ entries ↔ kind key ∧ m[key]? = some val) :
    Snapshot m kind tests s := by
  obtain ⟨todo, split, counted, whole⟩ := walk.visited
  have sorted := Std.TreeMap.ordered_keys_toList (t := m)
  have size := Std.TreeMap.length_toList (t := m)
  rw [position, split] at sorted size
  rw [List.length_append, List.length_append] at size
  refine ⟨by omega, fun going post unset => step_isSome going post unset, ?_, ?_, ?_⟩
  · exact (List.pairwise_append.mp (List.pairwise_append.mp sorted).2.1).1
  · intro key val member
    refine (kinds key val).mp ?_
    rw [split]
    exact List.mem_append_left _ member
  · intro ended key val of found
    have member := (kinds key val).mpr ⟨of, found⟩
    rw [split, whole ended, List.append_nil] at member
    exact member

omit [Std.TransOrd κ] [Std.LawfulEqOrd κ] [Inhabited α] [DecidableEq κ] in
private theorem walk_start (wdmap m : Std.TreeMap κ α) (unset : κ × α) (entries : List (κ × α)) :
    Walk m entries (start wdmap ((WDItr.ofMap m unset).atPosition entries)) 0 :=
  .test [] entries rfl rfl (standsAt_ofMap m unset entries) rfl

omit [Inhabited α] in
private theorem find_equals_end (m : Std.TreeMap κ α) (key : κ) (unset other : κ × α) :
    (find m key unset).equals (endItr other) = true ↔ key ∉ m := by
  rw [equals_endItr, ← MapPosition.find_eq_nil, find]
  cases MapPosition.find m key with
  | nil => simp [WDItr.atPosition, WDItr.ofMap]
  | cons entry rest => simp [WDItr.atPosition]

/-- A loop over a `SafeMap` visits the entries that the map had when the loop
began, from the key on that it was started with, whatever is called meanwhile. -/
theorem iterates_snapshot (m : Std.TreeMap κ α) (unset : κ × α) :
    (∀ schedule final, machine.run (start m (begin m unset)) schedule = some final →
      Snapshot m (fun _ => True) (schedule.countP Event.isTest) final) ∧
    (∀ key ∈ m, ∀ schedule final, machine.run (start m (find m key unset)) schedule = some final →
      Snapshot m (fun other => (compare key other).isLE = true)
        (schedule.countP Event.isTest) final) ∧
    ∀ key other, (find m key unset).equals (endItr other) = true ↔ key ∉ m := by
  refine ⟨?_, ?_, fun key other => find_equals_end m key unset other⟩
  · intro schedule final runs
    have position : m.toList = [] ++ m.toList := rfl
    have walk := (walk_start m m unset m.toList).run position runs
    rw [Nat.zero_add] at walk
    refine walk.snapshot position fun key val => ?_
    rw [Std.TreeMap.mem_toList_iff_getElem?_eq_some]
    simp
  · intro key present schedule final runs
    obtain ⟨front, val, rest, split⟩ := MapPosition.split_of_mem present
    have position : m.toList = front ++ MapPosition.find m key := by
      rw [MapPosition.find_of_split split, split]
    have walk := (walk_start m m unset (MapPosition.find m key)).run position runs
    rw [Nat.zero_add] at walk
    exact walk.snapshot position fun other val => MapPosition.mem_find present

end

def twoEntries : Std.TreeMap Int32 Nat := (Std.TreeMap.empty.insert 1 10).insert 2 20

/-- A map that is changed while a loop runs over it. -/
def changedMeanwhile : List (Event Int32 Nat) :=
  [.test (0, 0), .call (.erase 2), .call (.insert 3 30), .increment true, .test (7, 7),
    .call (.update 1 11), .increment false, .test (0, 0)]

theorem changedMeanwhile_snapshot :
    (∃ final, machine.run (start twoEntries (begin twoEntries (5, 5))) changedMeanwhile =
        some final ∧ final.visited = [(1, 10), (2, 20)] ∧ final.stage = .ended ∧
      Snapshot twoEntries (fun _ => True) 3 final) ∧
    ∃ final, machine.run (start twoEntries (find twoEntries 2 (5, 5)))
        (changedMeanwhile.take 5) = some final ∧ final.visited = [(2, 20)] ∧
      final.stage = .ended ∧
      Snapshot twoEntries (fun other => (compare 2 other).isLE = true) 2 final := by
  have present : (2 : Int32) ∈ twoEntries := by decide +kernel
  have whole : (machine.run (start twoEntries (begin twoEntries (5, 5))) changedMeanwhile).map
      (fun s => (s.visited, s.stage)) = some ([(1, 10), (2, 20)], .ended) := by decide +kernel
  have part : (machine.run (start twoEntries (find twoEntries 2 (5, 5)))
      (changedMeanwhile.take 5)).map (fun s => (s.visited, s.stage)) =
        some ([(2, 20)], .ended) := by
    decide +kernel
  have snapshots := iterates_snapshot twoEntries (5, 5)
  constructor
  · obtain ⟨final, runs, same⟩ := Option.map_eq_some_iff.mp whole
    obtain ⟨visited, ended⟩ := Prod.mk.inj same
    exact ⟨final, runs, visited, ended, snapshots.1 changedMeanwhile final runs⟩
  · obtain ⟨final, runs, same⟩ := Option.map_eq_some_iff.mp part
    obtain ⟨visited, ended⟩ := Prod.mk.inj same
    exact ⟨final, runs, visited, ended,
      snapshots.2.1 2 present (changedMeanwhile.take 5) final runs⟩

end MapIterator

end RpcLoop.Shared
