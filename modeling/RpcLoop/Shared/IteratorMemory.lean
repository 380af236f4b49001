import RpcLoop.Foundation.Allocation
import RpcLoop.Shared.MapIterator

/-! Iterators in memory. `it++` keeps a copy of the old iterator behind `_oldSelf`,
which copies of the iterator copy along; so iterators behave as values, except
that an assignment forgets the copy of the iterator it writes to. -/

namespace RpcLoop.Shared

open Foundation

universe u v w

/-- A `WDItr` object; `_oldSelf` points to another one. -/
structure ItrObject (κ : Type u) (α : Type v) [Ord κ] where
  isEnd : Bool
  first : κ
  second : α
  tempMap : Std.TreeMap κ α
  oldSelf : Option Nat

namespace ItrObject

variable {κ : Type u} {α : Type v} [Ord κ]

/-- What a call of `begin`, `find` or `end` has made. -/
def construct (it : WDItr κ α) : ItrObject κ α where
  isEnd := it.isEnd
  first := it.first
  second := it.second
  tempMap := it.tempMap
  oldSelf := none

/-- `++it`. -/
def preIncrement (it : ItrObject κ α) : ItrObject κ α :=
  match MapPosition.find it.tempMap it.first with
  | [] => { it with isEnd := true }
  | _ :: [] => { it with isEnd := true }
  | _ :: (key, val) :: _ => { it with isEnd := false, first := key, second := val }

/-- The value of an object, over that of the copy it points to. -/
def value (it : ItrObject κ α) (old : Option (WDItr κ α)) : WDItr κ α where
  isEnd := it.isEnd
  first := it.first
  second := it.second
  tempMap := it.tempMap
  oldSelf := old

theorem value_preIncrement (it : ItrObject κ α) (old : Option (WDItr κ α)) :
    it.preIncrement.value old = (it.value old).preIncrement := by
  simp only [preIncrement, WDItr.preIncrement, value]
  cases MapPosition.find it.tempMap it.first with
  | nil => rfl
  | cons entry rest =>
    cases rest with
    | nil => rfl
    | cons next rest => rfl

theorem oldSelf_preIncrement (it : ItrObject κ α) : it.preIncrement.oldSelf = it.oldSelf := by
  simp only [preIncrement]
  split <;> rfl

end ItrObject

/-- The iterator of a variable, where one is constructed. -/
def built {β : Type w} (vars : List (Option β)) (x : Nat) : Option β := vars[x]?.join

/-- A variable of which no iterator has been constructed, or not any more. -/
def unbuilt {β : Type w} (vars : List (Option β)) (x : Nat) : Bool :=
  match vars[x]? with
  | some none => true
  | _ => false

section Variables

variable {β : Type v} {γ : Type w} {vars : List (Option β)} {x y : Nat}

private theorem built_map (f : β → γ) (vars : List (Option β)) (x : Nat) :
    built (vars.map (Option.map f)) x = (built vars x).map f := by
  rw [built, built, List.getElem?_map]
  cases vars[x]? with
  | none => rfl
  | some var => cases var <;> rfl

private theorem unbuilt_map (f : β → γ) (vars : List (Option β)) (x : Nat) :
    unbuilt (vars.map (Option.map f)) x = unbuilt vars x := by
  rw [unbuilt, unbuilt, List.getElem?_map]
  cases vars[x]? with
  | none => rfl
  | some var => cases var <;> rfl

theorem inside_of_built {item : β} (found : built vars x = some item) :
    vars[x]? = some (some item) := Option.join_eq_some_iff.mp found

private theorem inside_of_unbuilt (free : unbuilt vars x = true) : vars[x]? = some none := by
  unfold unbuilt at free
  split at free
  · assumption
  · cases free

end Variables

/-- The iterators that callers have declared, those that are not constructed among
them, and the copies on the heap; how many copies assignments have forgotten. -/
structure ItrMemory (κ : Type u) (α : Type v) [Ord κ] where
  vars : List (Option (ItrObject κ α))
  heap : Nat → Option (ItrObject κ α)
  allocated : Nat
  lost : Nat

/-- Statements on the iterators with these numbers. -/
inductive ItrEvent (κ : Type u) (α : Type v) [Ord κ] where
  | construct (x : Nat) (it : WDItr κ α)
  | copy (x y : Nat)
  | assign (x y : Nat)
  | preIncrement (x : Nat)
  | postIncrement (x : Nat)
  | destroy (x : Nat)

namespace ItrMemory

variable {κ : Type u} {α : Type v} [Ord κ]

def start (count : Nat) : ItrMemory κ α where
  vars := List.replicate count none
  heap _ := none
  allocated := 0
  lost := 0

/-- `new WDItr(..)`. -/
def new (s : ItrMemory κ α) (object : ItrObject κ α) : Nat × ItrMemory κ α :=
  (s.allocated, { s with
    heap := Function.update s.heap s.allocated (some object)
    allocated := s.allocated + 1 })

/-- `delete p`, with the destructor of the object. -/
def delete : Nat → (Nat → Option (ItrObject κ α)) → Nat → Option (Nat → Option (ItrObject κ α))
  | 0, _, _ => none
  | fuel + 1, heap, p => do
    let object ← heap p
    let heap ←
      match object.oldSelf with
      | none => some heap
      | some old => delete fuel heap old
    return Function.update heap p none

/-- The copy constructor, which copies what `_oldSelf` points to. -/
def copyObject : Nat → ItrMemory κ α → ItrObject κ α → Option (ItrObject κ α × ItrMemory κ α)
  | 0, _, _ => none
  | fuel + 1, s, val =>
    match val.oldSelf with
    | none => some (val, s)
    | some p => do
      let old ← s.heap p
      let (copy, s) ← copyObject fuel s old
      let (p, s) := s.new copy
      return ({ val with oldSelf := some p }, s)

/-- No chain of copies is longer than the number of objects ever created. -/
def fuel (s : ItrMemory κ α) : Nat := s.allocated + 1

def store (s : ItrMemory κ α) (x : Nat) (object : Option (ItrObject κ α)) : ItrMemory κ α :=
  { s with vars := s.vars.set x object }

/-- `delete _oldSelf; _oldSelf = NULL`, where there is one. -/
def release (s : ItrMemory κ α) (x : Nat) (self : ItrObject κ α) : Option (ItrMemory κ α) :=
  match self.oldSelf with
  | none => some s
  | some p => do
    let heap ← delete s.fuel s.heap p
    return { s with heap := heap }.store x (some { self with oldSelf := none })

/-- `_oldSelf = NULL` in an assignment, and the members that are copied first. -/
def forget (s : ItrMemory κ α) (x : Nat) (self val : ItrObject κ α) : ItrMemory κ α :=
  { s with lost := s.lost + if self.oldSelf.isSome then 1 else 0 }.store x
    (some { val with oldSelf := none })

/-- A pointer that is followed has to be in use; else there is no next state. -/
def step (s : ItrMemory κ α) : ItrEvent κ α → Option (ItrMemory κ α)
  | .construct x it =>
    if unbuilt s.vars x then some (s.store x (some (.construct it))) else none
  | .copy x y =>
    if unbuilt s.vars x then do
      let val ← built s.vars y
      let (object, s) ← copyObject s.fuel s val
      return s.store x (some object)
    else none
  | .assign x y => do
    let self ← built s.vars x
    let val ← built s.vars y
    if x = y then return s
    let s := s.forget x self val
    let (object, s) ← copyObject s.fuel s val
    return s.store x (some object)
  | .preIncrement x => do
    let self ← built s.vars x
    return s.store x (some self.preIncrement)
  | .postIncrement x => do
    let self ← built s.vars x
    let s ← s.release x self
    let self := { self with oldSelf := none }
    let (copy, s) ← copyObject s.fuel s self
    let (p, s) := s.new copy
    return s.store x (some { self with oldSelf := some p }.preIncrement)
  | .destroy x => do
    let self ← built s.vars x
    let s ← s.release x self
    return s.store x none

def machine : Machine (ItrMemory κ α) (ItrEvent κ α) where
  step := step

end ItrMemory

/-! ### Iterators as values -/

namespace WDItr

variable {κ : Type u} {α : Type v} [Ord κ]

/-- The same statements where a copy of an iterator is the iterator. -/
def step (s : List (Option (WDItr κ α))) : ItrEvent κ α → Option (List (Option (WDItr κ α)))
  | .construct x it =>
    if unbuilt s x then some (s.set x (some { it with oldSelf := none })) else none
  | .copy x y =>
    if unbuilt s x then do
      let val ← built s y
      return s.set x (some val)
    else none
  | .assign x y => do
    let _ ← built s x
    let val ← built s y
    return s.set x (some val)
  | .preIncrement x => do
    let self ← built s x
    return s.set x (some self.preIncrement)
  | .postIncrement x => do
    let self ← built s x
    return s.set x (some self.postIncrement.2)
  | .destroy x => do
    let _ ← built s x
    return s.set x none

def machine : Machine (List (Option (WDItr κ α))) (ItrEvent κ α) where
  step := step

end WDItr

namespace ItrMemory

variable {κ : Type u} {α : Type v} [Ord κ] {s : ItrMemory κ α} {x p : Nat}

/-- An object with the copy that its pointer leads to. -/
def read (heap : Nat → Option (ItrObject κ α)) (object : ItrObject κ α) : WDItr κ α :=
  object.value ((object.oldSelf.bind heap).map (·.value none))

def values (s : ItrMemory κ α) : List (Option (WDItr κ α)) := s.vars.map (Option.map (read s.heap))

/-- The pointer of a variable. -/
def pointer (var : Option (ItrObject κ α)) : Option Nat := var.bind (·.oldSelf)

/-- Every iterator owns the copy it points to, and copies own none. -/
structure Owned (s : ItrMemory κ α) : Prop where
  fresh : ∀ p copy, s.heap p = some copy → p < s.allocated
  flat : ∀ p copy, s.heap p = some copy → copy.oldSelf = none
  points : ∀ (x : Nat) (var : Option (ItrObject κ α)) p, s.vars[x]? = some var →
    pointer var = some p → ∃ copy, s.heap p = some copy
  alone : ∀ (x y : Nat) (var other : Option (ItrObject κ α)) p,
    s.vars[x]? = some var → s.vars[y]? = some other →
    pointer var = some p → pointer other = some p → x = y
  counted : (live s.heap s.allocated).card =
    s.vars.countP (fun var => (pointer var).isSome) + s.lost

/-- The change of one variable, of the pointer it owned, and of the one it owns now. -/
structure Change (s after : ItrMemory κ α) (x : Nat) (var : Option (ItrObject κ α)) : Prop where
  vars : after.vars = s.vars.set x var
  others : ∀ y other p, y ≠ x → s.vars[y]? = some other → pointer other = some p →
    after.heap p = s.heap p ∧ pointer var ≠ some p
  points : ∀ p, pointer var = some p → ∃ copy, after.heap p = some copy
  fresh : ∀ p copy, after.heap p = some copy → p < after.allocated
  flat : ∀ p copy, after.heap p = some copy → copy.oldSelf = none
  counted : ∀ before, s.vars[x]? = some before →
    (live after.heap after.allocated).card + s.lost + (if (pointer before).isSome then 1 else 0) =
      (live s.heap s.allocated).card + after.lost + (if (pointer var).isSome then 1 else 0)

variable {after : ItrMemory κ α} {before var : Option (ItrObject κ α)}

theorem Change.values (change : Change s after x var) :
    after.values = s.values.set x (var.map (read after.heap)) := by
  apply List.ext_getElem?
  intro y
  by_cases same : y = x
  · subst same
    simp only [ItrMemory.values, change.vars, List.getElem?_map, List.getElem?_set_self']
    cases s.vars[y]? <;> rfl
  · have apart : x ≠ y := fun eq => same eq.symm
    simp only [ItrMemory.values, change.vars, List.getElem?_map, List.getElem?_set_ne apart]
    cases found : s.vars[y]? with
    | none => rfl
    | some other =>
      cases other with
      | none => rfl
      | some object =>
        have kept : object.oldSelf.bind after.heap = object.oldSelf.bind s.heap := by
          cases old : object.oldSelf with
          | none => rfl
          | some p => exact (change.others y _ p same found old).1
        simp only [Option.map_some, read, kept]

theorem Owned.change (owned : Owned s) (found : s.vars[x]? = some before)
    (change : Change s after x var) : Owned after := by
  have inside := (List.getElem?_eq_some_iff.mp found).1
  have lookup : ∀ y other, after.vars[y]? = some other →
      (y = x ∧ other = var) ∨ (y ≠ x ∧ s.vars[y]? = some other) := by
    intro y other at_
    rw [change.vars] at at_
    by_cases same : y = x
    · subst same
      rw [List.getElem?_set_self inside] at at_
      exact .inl ⟨rfl, (Option.some.inj at_).symm⟩
    · rw [List.getElem?_set_ne fun eq => same eq.symm] at at_
      exact .inr ⟨same, at_⟩
  refine ⟨change.fresh, change.flat, ?_, ?_, ?_⟩
  · intro y other p at_ old
    rcases lookup y other at_ with ⟨-, rfl⟩ | ⟨apart, at_⟩
    · exact change.points p old
    · rw [(change.others y other p apart at_ old).1]
      exact owned.points y other p at_ old
  · intro y z one two p atY atZ oldY oldZ
    rcases lookup y one atY with ⟨eqY, rfl⟩ | ⟨apartY, atY⟩ <;>
      rcases lookup z two atZ with ⟨eqZ, rfl⟩ | ⟨apartZ, atZ⟩
    · rw [eqY, eqZ]
    · exact ((change.others z two p apartZ atZ oldZ).2 oldY).elim
    · exact ((change.others y one p apartY atY oldY).2 oldZ).elim
    · exact owned.alone y z one two p atY atZ oldY oldZ
  · have moved := countP_replace (fun var => (pointer var).isSome) found var
    have balance := change.counted before found
    have total := owned.counted
    rw [change.vars]
    omega

/-! ### The changes that the statements make -/

variable {copy self val : ItrObject κ α}

theorem Owned.keep (owned : Owned s) (found : s.vars[x]? = some before)
    (var : Option (ItrObject κ α)) (same : pointer var = pointer before) :
    Change s (s.store x var) x var := by
  refine ⟨rfl, ?_, ?_, owned.fresh, owned.flat, ?_⟩
  · intro y other p apart at_ old
    refine ⟨rfl, fun mine => apart ?_⟩
    exact owned.alone y x other before p at_ found old (same ▸ mine)
  · intro p old
    exact owned.points x before p found (same ▸ old)
  · intro other at_
    rw [found, Option.some.injEq] at at_
    rw [← at_, same]
    rfl

theorem Owned.drop (owned : Owned s) (found : s.vars[x]? = some before)
    (old : pointer before = some p) (var : Option (ItrObject κ α)) (none : pointer var = none) :
    Change s ({ s with heap := Function.update s.heap p .none }.store x var) x var := by
  obtain ⟨copy, held⟩ := owned.points x before p found old
  refine ⟨rfl, ?_, ?_, ?_, ?_, ?_⟩
  · intro y other q apart at_ mine
    have different : q ≠ p := by
      rintro rfl
      exact apart (owned.alone y x other before q at_ found mine old)
    refine ⟨Function.update_of_ne different _ _, ?_⟩
    rw [none]
    exact nofun
  · intro q mine
    rw [none] at mine
    cases mine
  · intro q object at_
    by_cases same : q = p
    · subst same
      simp [store] at at_
    · exact owned.fresh q object ((Function.update_of_ne same _ _).symm.trans at_)
  · intro q object at_
    by_cases same : q = p
    · subst same
      simp [store] at at_
    · exact owned.flat q object ((Function.update_of_ne same _ _).symm.trans at_)
  · intro other at_
    rw [found, Option.some.injEq] at at_
    subst at_
    have deleted := card_live_delete held (owned.fresh p copy held)
    simp only [old, none, Option.isSome_some, Option.isSome_none, store, if_true]
    simp only [Bool.false_eq_true, if_false]
    omega

theorem Owned.forget (owned : Owned s) (found : s.vars[x]? = some (some self))
    (val : ItrObject κ α) :
    Change s (s.forget x self val) x (some { val with oldSelf := none }) := by
  refine ⟨rfl, ?_, nofun, owned.fresh, owned.flat, ?_⟩
  · intro y other p apart at_ old
    exact ⟨rfl, nofun⟩
  · intro other at_
    rw [found, Option.some.injEq] at at_
    rw [← at_]
    change (live s.heap s.allocated).card + s.lost + (if self.oldSelf.isSome then 1 else 0) =
      (live s.heap s.allocated).card + (s.lost + if self.oldSelf.isSome then 1 else 0) + 0
    omega

theorem Owned.take (owned : Owned s) (found : s.vars[x]? = some before)
    (free : pointer before = none) (copy : ItrObject κ α) (alone : copy.oldSelf = none)
    (var : Option (ItrObject κ α)) (mine : pointer var = some s.allocated) :
    Change s ((s.new copy).2.store x var) x var := by
  refine ⟨rfl, ?_, ?_, ?_, ?_, ?_⟩
  · intro y other p apart at_ old
    obtain ⟨object, held⟩ := owned.points y other p at_ old
    have less := owned.fresh p object held
    refine ⟨Function.update_of_ne (by omega) _ _, ?_⟩
    rw [mine, ne_eq, Option.some.injEq]
    omega
  · intro p at_
    rw [mine, Option.some.injEq] at at_
    subst at_
    exact ⟨copy, Function.update_self _ _ _⟩
  · intro p object at_
    by_cases same : p = s.allocated
    · subst same
      exact Nat.lt_succ_self _
    · have less := owned.fresh p object ((Function.update_of_ne same _ _).symm.trans at_)
      exact Nat.lt_succ_of_lt less
  · intro p object at_
    by_cases same : p = s.allocated
    · subst same
      have one : copy = object := by simpa [store, new] using at_
      rw [← one, alone]
    · exact owned.flat p object ((Function.update_of_ne same _ _).symm.trans at_)
  · intro other at_
    rw [found, Option.some.injEq] at at_
    rw [← at_, free, mine]
    have created := card_live_new s.heap s.allocated copy
    simp only [store, new, created, Option.isSome_some, Option.isSome_none, if_true,
      Bool.false_eq_true, if_false]
    omega

/-! ### Copying and deleting -/

variable {object : ItrObject κ α}

private theorem copyObject_flat (alone : object.oldSelf = none) :
    copyObject s.fuel s object = some (object, s) := by
  simp only [fuel, copyObject, alone]

private theorem copyObject_owner (old : object.oldSelf = some p) (held : s.heap p = some copy)
    (alone : copy.oldSelf = none) (inside : p < s.allocated) :
    copyObject s.fuel s object =
      some ({ object with oldSelf := some s.allocated }, (s.new copy).2) := by
  obtain ⟨more, allocated⟩ : ∃ more, s.allocated = more + 1 := ⟨s.allocated - 1, by omega⟩
  have inner : copyObject s.allocated s copy = some (copy, s) := by
    rw [allocated]
    simp only [copyObject, alone]
  rw [fuel, copyObject, old]
  simp only [held, inner, new, Option.bind_eq_bind, Option.bind_some, Option.pure_def]

/-- A copy has the value that it is a copy of, and owns what it points to. -/
theorem Owned.copied (owned : Owned s) (found : s.vars[x]? = some before)
    (free : pointer before = none)
    (leads : ∀ p, val.oldSelf = some p → ∃ copy, s.heap p = some copy) :
    ∃ object after, copyObject s.fuel s val = some (object, after) ∧
      Owned (after.store x (some object)) ∧
      (after.store x (some object)).values = s.values.set x (some (read s.heap val)) := by
  cases old : val.oldSelf with
  | none =>
    have changed := owned.keep found (some val) (old.trans free.symm)
    exact ⟨val, s, copyObject_flat old, owned.change found changed, changed.values⟩
  | some p =>
    obtain ⟨copy, held⟩ := leads p old
    have alone := owned.flat p copy held
    have inside := owned.fresh p copy held
    have changed := owned.take found free copy alone
      (some { val with oldSelf := some s.allocated }) rfl
    refine ⟨_, _, copyObject_owner old held alone inside, owned.change found changed, ?_⟩
    rw [changed.values]
    have one : (s.new copy).2.heap s.allocated = some copy := Function.update_self _ _ _
    have other : s.heap p = some copy := held
    simp only [Option.map_some, read, ItrObject.value, store, one, other, old, Option.bind_some]

/-- Deleting the copy that an iterator owns leaves an iterator without one. -/
theorem Owned.released (owned : Owned s) (found : s.vars[x]? = some (some self)) :
    ∃ after, s.release x self = some after ∧ Owned after ∧
      after.vars[x]? = some (some { self with oldSelf := none }) ∧
      after.values = s.values.set x (some (self.value none)) := by
  obtain ⟨inside, here⟩ := List.getElem?_eq_some_iff.mp found
  cases old : self.oldSelf with
  | none =>
    have same : { self with oldSelf := none } = self := by rw [← old]
    have changed := owned.keep found (some self) rfl
    have unchanged : s.store x (some self) = s := by
      rw [store, ← here, List.set_getElem_self inside]
    rw [unchanged] at changed
    refine ⟨s, by simp only [release, old], owned, by rw [same]; exact found, ?_⟩
    conv_lhs => rw [changed.values]
    simp only [Option.map_some, read, old, Option.bind_none, Option.map_none]
  | some p =>
    obtain ⟨copy, held⟩ := owned.points x _ p found old
    have deleted : delete s.fuel s.heap p = some (Function.update s.heap p none) := by
      simp only [fuel, delete, held, owned.flat p copy held, Option.bind_eq_bind, Option.bind_some,
        Option.pure_def]
    have changed := owned.drop found old (some { self with oldSelf := none }) rfl
    refine ⟨_, ?_, owned.change found changed, List.getElem?_set_self inside, changed.values⟩
    simp only [release, old, deleted, Option.bind_eq_bind, Option.bind_some, Option.pure_def]

theorem Owned.leads (owned : Owned s) (found : built s.vars x = some val) (p : Nat)
    (old : val.oldSelf = some p) : ∃ copy, s.heap p = some copy :=
  owned.points x (some val) p (inside_of_built found) old

theorem built_values (s : ItrMemory κ α) (x : Nat) :
    built s.values x = (built s.vars x).map (read s.heap) := built_map _ _ _

/-- What a statement does to the iterators in memory is what it does to the values. -/
structure Agrees (memory : Option (ItrMemory κ α)) (value : Option (List (Option (WDItr κ α)))) :
    Prop where
  same : memory.map values = value
  owned : ∀ after, memory = some after → Owned after

theorem Agrees.moved {value : List (Option (WDItr κ α))} (owned : Owned after)
    (same : after.values = value) : Agrees (some after) (some value) where
  same := congrArg some same
  owned _ eq := Option.some.inj eq ▸ owned

theorem Agrees.built {f : ItrObject κ α → Option (ItrMemory κ α)}
    {g : WDItr κ α → Option (List (Option (WDItr κ α)))}
    (each : ∀ self, built s.vars x = some self → Agrees (f self) (g (read s.heap self))) :
    Agrees (built s.vars x >>= f) (built s.values x >>= g) := by
  rw [built_values]
  cases found : Shared.built s.vars x with
  | none => exact ⟨rfl, nofun⟩
  | some self => exact each self found

theorem Agrees.unbuilt {memory : Option (ItrMemory κ α)}
    {value : Option (List (Option (WDItr κ α)))}
    (each : s.vars[x]? = some none → Agrees memory value) :
    Agrees (if unbuilt s.vars x then memory else none)
      (if unbuilt s.values x then value else none) := by
  rw [values, unbuilt_map]
  split
  · exact each (inside_of_unbuilt ‹_›)
  · exact ⟨rfl, nofun⟩

theorem Owned.construct (owned : Owned s) (x : Nat) (it : WDItr κ α) :
    Agrees (s.step (.construct x it)) (WDItr.step s.values (.construct x it)) := by
  refine .unbuilt fun found => ?_
  have changed := owned.keep found (some (.construct it)) rfl
  exact .moved (owned.change found changed) changed.values

theorem Owned.copyConstruct (owned : Owned s) (x y : Nat) :
    Agrees (s.step (.copy x y)) (WDItr.step s.values (.copy x y)) := by
  refine .unbuilt fun found => .built fun val source => ?_
  obtain ⟨object, after, copied, next, result⟩ := owned.copied found rfl (owned.leads source)
  rw [copied]
  exact .moved next result

theorem Owned.assign (owned : Owned s) (x y : Nat) :
    Agrees (s.step (.assign x y)) (WDItr.step s.values (.assign x y)) := by
  refine .built fun self target => .built fun val source => ?_
  by_cases same : x = y
  · subst same
    rw [if_pos rfl]
    refine .moved owned ?_
    have here := inside_of_built ((built_values s x).trans (congrArg (Option.map _) source))
    obtain ⟨inside, there⟩ := List.getElem?_eq_some_iff.mp here
    rw [← there, List.set_getElem_self inside]
  · have found := inside_of_built target
    have forgot := owned.forget found val
    have inside := (List.getElem?_eq_some_iff.mp found).1
    obtain ⟨object, after, copied, next, result⟩ :=
      (owned.change found forgot).copied (List.getElem?_set_self inside) rfl (owned.leads source)
    rw [if_neg same]
    change Agrees (copyObject (s.forget x self val).fuel (s.forget x self val) val >>= _) _
    rw [copied]
    refine .moved next ?_
    rw [result, forgot.values, List.set_set]
    rfl

theorem Owned.preIncrement (owned : Owned s) (x : Nat) :
    Agrees (s.step (.preIncrement x)) (WDItr.step s.values (.preIncrement x)) := by
  refine .built fun self target => ?_
  have found := inside_of_built target
  have changed := owned.keep found (some self.preIncrement) self.oldSelf_preIncrement
  have value : read s.heap self.preIncrement = (read s.heap self).preIncrement := by
    rw [read, self.oldSelf_preIncrement, self.value_preIncrement, read]
  refine .moved (owned.change found changed) ?_
  rw [changed.values, ← value]
  rfl

theorem Owned.postIncrement (owned : Owned s) (x : Nat) :
    Agrees (s.step (.postIncrement x)) (WDItr.step s.values (.postIncrement x)) := by
  refine .built fun self target => ?_
  obtain ⟨after, released, next, found, result⟩ := owned.released (inside_of_built target)
  let kept : ItrObject κ α := { self with oldSelf := none }
  let moved : ItrObject κ α := { self with oldSelf := some after.allocated }
  have mine : moved.preIncrement.oldSelf = some after.allocated := moved.oldSelf_preIncrement
  have changed := next.take found rfl kept rfl (some moved.preIncrement) mine
  have held : (after.new kept).2.heap after.allocated = some kept := Function.update_self _ _ _
  have value : read (after.new kept).2.heap moved.preIncrement =
      (read s.heap self).postIncrement.2 := by
    rw [read, mine, moved.value_preIncrement, Option.bind_some, held]
    rfl
  rw [released]
  -- What is copied points to nothing, so the copy is the only object created.
  refine .moved (next.change found changed) (changed.values.trans ?_)
  rw [result, List.set_set, ← value]
  rfl

theorem Owned.destroy (owned : Owned s) (x : Nat) :
    Agrees (s.step (.destroy x)) (WDItr.step s.values (.destroy x)) := by
  refine .built fun self target => ?_
  obtain ⟨after, released, next, found, result⟩ := owned.released (inside_of_built target)
  have changed := next.keep found none rfl
  rw [released]
  refine .moved (next.change found changed) ?_
  rw [changed.values, result, List.set_set]
  rfl

theorem Owned.step (owned : Owned s) (event : ItrEvent κ α) :
    Agrees (s.step event) (WDItr.step s.values event) := by
  cases event with
  | construct x it => exact owned.construct x it
  | copy x y => exact owned.copyConstruct x y
  | assign x y => exact owned.assign x y
  | preIncrement x => exact owned.preIncrement x
  | postIncrement x => exact owned.postIncrement x
  | destroy x => exact owned.destroy x

theorem Owned.start (count : Nat) : Owned (start count : ItrMemory κ α) where
  fresh := nofun
  flat := nofun
  points x var p at_ old := by
    obtain ⟨-, rfl⟩ := List.mem_replicate.mp (List.mem_of_getElem? at_)
    cases old
  alone x y var other p atX atY old := by
    obtain ⟨-, rfl⟩ := List.mem_replicate.mp (List.mem_of_getElem? atX)
    cases old
  counted := by
    have none : (live (fun _ => none : Nat → Option (ItrObject κ α)) 0).card = 0 := rfl
    simp [ItrMemory.start, none, List.countP_replicate, pointer]

/-- However iterators are copied, assigned, incremented and destroyed, they behave
as values do: no pointer is followed that leads nowhere, nothing is deleted twice,
and only what assignments forgot stays in memory. -/
theorem iterators_are_values (count : Nat) (schedule : List (ItrEvent κ α)) :
    (machine.run (start count : ItrMemory κ α) schedule).map values =
        WDItr.machine.run (List.replicate count none) schedule ∧
      machine.Always Owned (start count : ItrMemory κ α) schedule := by
  have begun : (start count : ItrMemory κ α).values = List.replicate count none :=
    List.map_replicate
  constructor
  · rw [← begun]
    exact Machine.run_map values Owned (fun owned => (owned.step _).same)
      (fun owned taken => (owned.step _).owned _ taken) (.start count) schedule
  · exact Machine.always_of_invariant Owned (fun owned => owned)
      (fun owned taken => (owned.step _).owned _ taken) (.start count) schedule

end ItrMemory

end RpcLoop.Shared
