import RpcLoop.Foundation.Sections
import RpcLoop.Shared.EndIterator
import RpcLoop.Shared.MapAssignment

/-! The calls of `SafeMap` statement by statement. Up to its `UnLock` a call uses the
guarded map, and iterators of it, only under the lock, so it behaves as one step. What
`operator[]` does behind its `UnLock` is no part of this: it evaluates `_mitr->second`
without the lock, and another thread may have erased the entry by then. -/

namespace RpcLoop.Shared

open Foundation

universe u v w x

/-- The variables of a call: `_mitr` points to an entry of the map or is its end. -/
structure MapLocals (κ : Type u) (α : Type v) [Ord κ] where
  mitr : Option κ := none
  tmpItr : Option (WDItr κ α) := none
  ret : Bool := false
  mSize : UInt32 := 0
  wdmap : Std.TreeMap κ α := ∅

/-- What a call returns, the copy constructor the new map. -/
inductive MapResult (κ : Type u) (α : Type v) [Ord κ] where
  | nothing
  | updated (ret : Bool)
  | counted (mSize : UInt32)
  | iterator (tmpItr : Option (WDItr κ α))
  | copied (wdmap : Std.TreeMap κ α)

inductive MapRequest (μ : Type w) (κ : Type u) (α : Type v) [Ord κ] where
  | insert (this : μ) (tKey : κ) (tVal : α)
  | erase (this : μ) (tKey : κ)
  | eraseItr (this : μ) (val : WDItr κ α)
  | update (this : μ) (tKey : κ) (tVal : α)
  | updateItr (this : μ) (val : WDItr κ α)
  | find (this : μ) (tKey : κ) (unset : κ × α)
  | begin (this : μ) (unset : κ × α)
  | endItr (unset : κ × α)
  | size (this : μ)
  | subscript (this : μ) (tKey : κ)
  | assign (this val : μ)
  | copy (val : μ)

namespace MapRequest

variable {μ : Type w} {κ : Type u} {α : Type v} [Ord κ]

/-! ### Statements -/

/-- A statement on the guarded map. -/
abbrev Guarded (κ : Type u) (α : Type v) [Ord κ] :=
  Std.TreeMap κ α → MapLocals κ α → Option (Std.TreeMap κ α × MapLocals κ α)

/-- `_mitr = this->_wdmap.find(t_key)`. -/
def findEntry (tKey : κ) : Guarded κ α := fun wdmap env =>
  some (wdmap, { env with mitr := if tKey ∈ wdmap then some tKey else none })

/-- `_mitr = this->_wdmap.begin()`. -/
def beginEntry : Guarded κ α := fun wdmap env =>
  some (wdmap, { env with mitr := wdmap.toList.head?.map Prod.fst })

/-- `iterator _tmpItr(this->_wdmap)`. -/
def makeIterator (unset : κ × α) : Guarded κ α := fun wdmap env =>
  some (wdmap, { env with tmpItr := some (.ofMap wdmap unset) })

/-- The assignments to `_tmpItr` when `_mitr` is not the end. -/
def fillIterator : Guarded κ α := fun wdmap env =>
  match env.mitr with
  | none => some (wdmap, env)
  | some key => wdmap[key]?.map fun val =>
      (wdmap, { env with tmpItr := env.tmpItr.map fun it =>
        { it with isEnd := false, first := key, second := val } })

/-- `_mitr->second = t_val; ret = true;` when `_mitr` is not the end. -/
def setSecond (tVal : α) : Guarded κ α := fun wdmap env =>
  match env.mitr with
  | none => some (wdmap, env)
  | some key =>
    if key ∈ wdmap then some (wdmap.insert key tVal, { env with ret := true }) else none

/-- `this->_wdmap.insert(value_type(t_key, t_val))`. -/
def insertEntry (tKey : κ) (tVal : α) : Guarded κ α := fun wdmap env =>
  some (wdmap.insertIfNew tKey tVal, env)

/-- `this->_wdmap.erase(t_key)`. -/
def eraseEntry (tKey : κ) : Guarded κ α := fun wdmap env => some (wdmap.erase tKey, env)

/-- `m_size = this->_wdmap.size()`. -/
def readSize : Guarded κ α := fun wdmap env =>
  some (wdmap, { env with mSize := UInt32.ofNat wdmap.size })

/-- A statement that runs when `_mitr` is the end. -/
def atEnd (statement : Guarded κ α) : Guarded κ α := fun wdmap env =>
  match env.mitr with
  | none => statement wdmap env
  | some _ => some (wdmap, env)

/-- The two halves of `this->_wdmap = val._wdmap`. -/
def readMap : Guarded κ α := fun wdmap env => some (wdmap, { env with wdmap := wdmap })

def writeMap : Guarded κ α := fun _ env => some (env.wdmap, env)

/-- Statements behind one lock. -/
def runs : List (Guarded κ α) → Guarded κ α
  | [], wdmap, env => some (wdmap, env)
  | statement :: rest, wdmap, env => do
    let (wdmap, env) ← statement wdmap env
    runs rest wdmap env

/-! ### Calls -/

/-- A call that holds the lock of one map. -/
def locked (this : μ) (body : List (Guarded κ α)) (result : MapLocals κ α → MapResult κ α) :
    Section μ (Std.TreeMap κ α) (MapLocals κ α) (MapResult κ α) where
  locks := [this]
  initial := {}
  body := body.map fun run => { part := this, run := run }
  unlocks := [this]
  result := result
  nodup := by simp
  released := .refl [this]
  guarded statement member := by
    obtain ⟨run, _, rfl⟩ := List.mem_map.mp member
    exact List.mem_singleton_self this

/-- A call that takes no lock. -/
def unlocked (result : MapResult κ α) :
    Section μ (Std.TreeMap κ α) (MapLocals κ α) (MapResult κ α) where
  locks := []
  initial := {}
  body := []
  unlocks := []
  result _ := result
  nodup := List.nodup_nil
  released := .refl []
  guarded _ member := by cases member

/-- `operator=` of two different maps. -/
def assigned (this val : μ) (different : this ≠ val) :
    Section μ (Std.TreeMap κ α) (MapLocals κ α) (MapResult κ α) where
  locks := [this, val]
  initial := {}
  body := [{ part := val, run := readMap }, { part := this, run := writeMap }]
  unlocks := [val, this]
  result _ := .nothing
  nodup := by simpa using different
  released := .swap this val []
  guarded := by simp

variable [Inhabited α] [DecidableEq μ]

/-- The code of a call. -/
def code : MapRequest μ κ α → Section μ (Std.TreeMap κ α) (MapLocals κ α) (MapResult κ α)
  | .insert this tKey tVal => locked this [insertEntry tKey tVal] fun _ => .nothing
  | .erase this tKey => locked this [eraseEntry tKey] fun _ => .nothing
  | .eraseItr this val => locked this [eraseEntry val.first] fun _ => .nothing
  | .update this tKey tVal =>
    locked this [findEntry tKey, setSecond tVal] fun env => .updated env.ret
  | .updateItr this val =>
    locked this [findEntry val.first, setSecond val.second] fun env => .updated env.ret
  | .find this tKey unset =>
    locked this [makeIterator unset, findEntry tKey, fillIterator] fun env => .iterator env.tmpItr
  | .begin this unset =>
    locked this [makeIterator unset, beginEntry, fillIterator] fun env => .iterator env.tmpItr
  | .endItr unset => unlocked (.iterator (some (.new unset)))
  | .size this => locked this [readSize] fun env => .counted env.mSize
  | .subscript this tKey =>
    locked this [findEntry tKey, atEnd (insertEntry tKey default), atEnd (findEntry tKey)]
      fun _ => .nothing
  | .assign this val =>
    if different : this ≠ val then assigned this val different else unlocked .nothing
  | .copy val => locked val [readMap] fun env => .copied env.wdmap

/-- What a call is for: one change of the map and its result. -/
def apply (call : MapRequest μ κ α) (maps : μ → Std.TreeMap κ α) :
    (μ → Std.TreeMap κ α) × MapResult κ α :=
  match call with
  | .insert this tKey tVal =>
    (Function.update maps this (MapIterator.insert (maps this) tKey tVal), .nothing)
  | .erase this tKey => (Function.update maps this (MapIterator.erase (maps this) tKey), .nothing)
  | .eraseItr this val =>
    (Function.update maps this (MapIterator.eraseItr (maps this) val), .nothing)
  | .update this tKey tVal =>
    let (ret, wdmap) := MapIterator.update (maps this) tKey tVal
    (Function.update maps this wdmap, .updated ret)
  | .updateItr this val =>
    let (ret, wdmap) := MapIterator.updateItr (maps this) val
    (Function.update maps this wdmap, .updated ret)
  | .find this tKey unset => (maps, .iterator (some (MapIterator.find (maps this) tKey unset)))
  | .begin this unset => (maps, .iterator (some (MapIterator.begin (maps this) unset)))
  | .endItr unset => (maps, .iterator (some (MapIterator.endItr unset)))
  | .size this => (maps, .counted (UInt32.ofNat (maps this).size))
  | .subscript this tKey =>
    (Function.update maps this (MapIterator.subscript (maps this) tKey), .nothing)
  | .assign this val => (Function.update maps this (maps val), .nothing)
  | .copy val => (maps, .copied (maps val))

/-! ### The code by itself -/

omit [Inhabited α] in
private theorem effect_guarded (this : μ) (body : List (Guarded κ α)) (maps : μ → Std.TreeMap κ α)
    (env : MapLocals κ α) :
    effect (body.map fun run => { part := this, run := run }) maps env =
      (runs body (maps this) env).map fun (wdmap, env) =>
        (Function.update maps this wdmap, env) := by
  induction body generalizing maps env with
  | nil => simp [effect, runs]
  | cons statement rest ih =>
    simp only [List.map_cons, effect, runs, ih, Function.update_self, Function.update_idem,
      Option.map_bind, Option.bind_eq_bind]
    rfl

omit [Inhabited α] in
private theorem whole_locked {this : μ} {body : List (Guarded κ α)}
    {result : MapLocals κ α → MapResult κ α} {maps : μ → Std.TreeMap κ α}
    {wdmap : Std.TreeMap κ α} {env : MapLocals κ α}
    (alone : runs body (maps this) {} = some (wdmap, env)) :
    (locked this body result).whole maps = some (Function.update maps this wdmap, result env) := by
  rw [Section.whole]
  simp only [locked]
  rw [effect_guarded, alone]
  rfl

section

variable [Std.TransOrd κ] [Std.LawfulEqOrd κ] {wdmap : Std.TreeMap κ α} {tKey : κ}

omit [Inhabited α] [Std.TransOrd κ] [Std.LawfulEqOrd κ] in
private theorem insertIfNew_of_mem (present : tKey ∈ wdmap) (tVal : α) :
    wdmap.insertIfNew tKey tVal = wdmap := by
  obtain ⟨⟨inner, wf⟩⟩ := wdmap
  have found : inner.contains tKey = true := present
  simp [Std.TreeMap.insertIfNew, Std.DTreeMap.insertIfNew, Std.DTreeMap.Internal.Impl.insertIfNew,
    found]

omit [Inhabited α] [Std.TransOrd κ] [Std.LawfulEqOrd κ] in
private theorem runs_update (wdmap : Std.TreeMap κ α) (tKey : κ) (tVal : α) :
    ∃ env : MapLocals κ α, runs [findEntry tKey, setSecond tVal] wdmap {} =
        some ((MapIterator.update wdmap tKey tVal).2, env) ∧
      env.ret = (MapIterator.update wdmap tKey tVal).1 := by
  by_cases present : tKey ∈ wdmap
  · refine ⟨{ mitr := some tKey, ret := true }, ?_, ?_⟩
    · simp [runs, findEntry, setSecond, MapIterator.update, present]
    · simp [MapIterator.update, present]
  · refine ⟨{}, ?_, ?_⟩
    · simp [runs, findEntry, setSecond, MapIterator.update, present]
    · simp [MapIterator.update, present]

omit [Inhabited α] in
private theorem runs_find (wdmap : Std.TreeMap κ α) (tKey : κ) (unset : κ × α) :
    ∃ env : MapLocals κ α, runs [makeIterator unset, findEntry tKey, fillIterator] wdmap {} =
        some (wdmap, env) ∧ env.tmpItr = some (MapIterator.find wdmap tKey unset) := by
  by_cases present : tKey ∈ wdmap
  · obtain ⟨front, val, rest, split⟩ := MapPosition.split_of_mem present
    have found : wdmap[tKey]? = some val := by
      rw [← Std.TreeMap.mem_toList_iff_getElem?_eq_some, split]
      exact List.mem_append_right _ List.mem_cons_self
    refine ⟨{ mitr := some tKey, tmpItr := some (MapIterator.find wdmap tKey unset) }, ?_, rfl⟩
    simp [runs, makeIterator, findEntry, fillIterator, if_pos present, found, MapIterator.find,
      MapPosition.find_of_split split, WDItr.atPosition]
  · refine ⟨{ tmpItr := some (MapIterator.find wdmap tKey unset) }, ?_, rfl⟩
    simp [runs, makeIterator, findEntry, fillIterator, present, MapIterator.find,
      MapPosition.find_eq_nil.mpr present, WDItr.atPosition]

omit [Inhabited α] in
private theorem runs_begin (wdmap : Std.TreeMap κ α) (unset : κ × α) :
    ∃ env : MapLocals κ α, runs [makeIterator unset, beginEntry, fillIterator] wdmap {} =
        some (wdmap, env) ∧ env.tmpItr = some (MapIterator.begin wdmap unset) := by
  cases entries : wdmap.toList with
  | nil =>
    refine ⟨{ tmpItr := some (MapIterator.begin wdmap unset) }, ?_, rfl⟩
    simp [runs, makeIterator, beginEntry, fillIterator, entries, MapIterator.begin,
      WDItr.atPosition]
  | cons entry rest =>
    obtain ⟨key, val⟩ := entry
    have found : wdmap[key]? = some val := by
      rw [← Std.TreeMap.mem_toList_iff_getElem?_eq_some, entries]
      exact List.mem_cons_self
    refine ⟨{ mitr := some key, tmpItr := some (MapIterator.begin wdmap unset) }, ?_, rfl⟩
    simp [runs, makeIterator, beginEntry, fillIterator, entries, found, MapIterator.begin,
      WDItr.atPosition]

private theorem runs_subscript (wdmap : Std.TreeMap κ α) (tKey : κ) :
    ∃ env : MapLocals κ α,
      runs [findEntry tKey, atEnd (insertEntry tKey default), atEnd (findEntry tKey)] wdmap {} =
        some (MapIterator.subscript wdmap tKey, env) := by
  refine ⟨{ mitr := some tKey }, ?_⟩
  by_cases present : tKey ∈ wdmap
  · simp [runs, findEntry, atEnd, present, MapIterator.subscript, insertIfNew_of_mem present]
  · simp [runs, findEntry, atEnd, insertEntry, present, MapIterator.subscript]

/-- Each call does by itself what it is for. -/
theorem meets : Section.Meets (code (μ := μ) (κ := κ) (α := α)) apply := by
  intro call maps
  cases call with
  | insert this tKey tVal => exact whole_locked rfl
  | erase this tKey => exact whole_locked rfl
  | eraseItr this val => exact whole_locked rfl
  | update this tKey tVal =>
    obtain ⟨env, alone, ret⟩ := runs_update (maps this) tKey tVal
    refine (whole_locked alone).trans ?_
    rw [ret]
    rfl
  | updateItr this val =>
    obtain ⟨env, alone, ret⟩ := runs_update (maps this) val.first val.second
    refine (whole_locked alone).trans ?_
    rw [ret]
    rfl
  | find this tKey unset =>
    obtain ⟨env, alone, found⟩ := runs_find (maps this) tKey unset
    refine (whole_locked alone).trans ?_
    rw [found, Function.update_eq_self]
    rfl
  | begin this unset =>
    obtain ⟨env, alone, found⟩ := runs_begin (maps this) unset
    refine (whole_locked alone).trans ?_
    rw [found, Function.update_eq_self]
    rfl
  | endItr unset => rfl
  | size this =>
    refine (whole_locked rfl).trans ?_
    rw [Function.update_eq_self]
    rfl
  | subscript this tKey =>
    obtain ⟨env, alone⟩ := runs_subscript (maps this) tKey
    exact whole_locked alone
  | assign this val =>
    by_cases different : this ≠ val
    · simp only [code, dif_pos different, apply]
      simp [Section.whole, assigned, effect, readMap, writeMap]
    · have same : this = val := not_not.mp different
      subst same
      simp only [code, dif_neg different, apply, Function.update_eq_self]
      rfl
  | copy val =>
    refine (whole_locked rfl).trans ?_
    rw [Function.update_eq_self]
    rfl

/-! ### Calls of several threads -/

variable {τ : Type x} [DecidableEq τ] {maps : μ → Std.TreeMap κ α}
  {s : Sections τ μ (Std.TreeMap κ α) (MapLocals κ α) (MapResult κ α) (MapRequest μ κ α)}

/-- However the statements of calls on any number of maps interleave, every call
returns what it returns when the calls are made one at a time, and no call uses an
iterator of the guarded map whose entry is gone: its next statement is defined. -/
theorem calls_linearizable (reached : (Sections.machine code).Reaches (Sections.start maps) s) :
    (∃ a : AtomicCalls τ μ (Std.TreeMap κ α) (MapResult κ α) (MapRequest μ κ α),
      (AtomicCalls.machine apply).Reaches (.start maps) a ∧ a.history = s.history ∧
      ((∀ thread, s.calls thread = none) → a.memory = s.memory)) ∧
    ∀ thread call statement todo unlocking env,
      s.calls thread = some (call, ⟨[], statement :: todo, unlocking, env⟩) →
      (statement.run (s.memory statement.part) env).isSome = true :=
  ⟨Sections.linearizable meets reached,
    fun _ _ _ _ _ _ stage => Sections.defined meets reached stage⟩

/-- The iterator stands at a key of a map, with the value there, over a copy of that
very map; or the key is not in the map and it is at the end. -/
structure FoundIn (wdmap : Std.TreeMap κ α) (tKey : κ) (it : WDItr κ α) : Prop where
  copied : it.tempMap = wdmap
  atEnd : it.isEnd = true ↔ tKey ∉ wdmap
  entry : ∀ val, wdmap[tKey]? = some val → it.first = tKey ∧ it.second = val

omit [Inhabited α] in
private theorem foundIn_find (wdmap : Std.TreeMap κ α) (tKey : κ) (unset : κ × α) :
    FoundIn wdmap tKey (MapIterator.find wdmap tKey unset) := by
  by_cases present : tKey ∈ wdmap
  · obtain ⟨front, val, rest, split⟩ := MapPosition.split_of_mem present
    have found : wdmap[tKey]? = some val := by
      rw [← Std.TreeMap.mem_toList_iff_getElem?_eq_some, split]
      exact List.mem_append_right _ List.mem_cons_self
    rw [MapIterator.find, MapPosition.find_of_split split]
    refine ⟨rfl, by simp [WDItr.atPosition, present], fun other same => ?_⟩
    rw [found] at same
    cases same
    exact ⟨rfl, rfl⟩
  · rw [MapIterator.find, MapPosition.find_eq_nil.mpr present]
    refine ⟨rfl, iff_of_true rfl present, fun val found => ?_⟩
    rw [Std.TreeMap.getElem?_eq_none present] at found
    cases found

end

/-- A key is looked up and updated while another thread copies the map to a
second one and erases the key. -/
def updateBesideAssign : List (CallEvent Bool (MapRequest Bool Int32 Nat)) :=
  [.call true (.update true 1 11), .run true, .call false (.assign false true), .run true,
    .run false, .run true, .run true, .ret true, .run false, .run false, .run false, .run false,
    .run false, .ret false, .call false (.erase true 1), .run false,
    .call true (.find false 1 (0, 0)), .run true, .run true, .run false, .run false, .run true]

theorem updateBesideAssign_linearizable :
    ∃ s, (Sections.machine code).run (Sections.start fun _ => MapIterator.twoEntries)
        updateBesideAssign = some s ∧ s.history.length = 6 ∧
      ∃ a : AtomicCalls Bool Bool (Std.TreeMap Int32 Nat) (MapResult Int32 Nat)
          (MapRequest Bool Int32 Nat),
        (AtomicCalls.machine apply).Reaches (.start fun _ => MapIterator.twoEntries) a ∧
        a.history = s.history ∧ ((∀ thread, s.calls thread = none) → a.memory = s.memory) := by
  have runs : ((Sections.machine code).run (Sections.start fun _ => MapIterator.twoEntries)
      updateBesideAssign).map (fun s => s.history.length) = some 6 := by
    decide +kernel
  obtain ⟨s, reached, length⟩ := Option.map_eq_some_iff.mp runs
  exact ⟨s, reached, length, (calls_linearizable ⟨updateBesideAssign, reached⟩).1⟩

/-- A key is looked up while another thread waits for the lock; it erases the key before
the first call returns. -/
def findBesideErase : List (CallEvent Bool (MapRequest Bool Int32 Nat)) :=
  [.call true (.find true 1 (0, 0)), .run true, .call false (.erase true 1), .run true, .run true,
    .run true, .run true, .run false, .run false, .run false]

end MapRequest

end RpcLoop.Shared
