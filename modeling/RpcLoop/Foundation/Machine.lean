import Mathlib.Algebra.GroupWithZero.Nat
import Mathlib.Data.List.Basic

/-! Deterministic labelled transition systems. A schedule is a list of labels;
a label that cannot be taken ends the run. Properties of runs are stated over
the states a schedule visits and over the steps it takes. -/

namespace RpcLoop.Foundation

universe u v u' v'

/-- A partial step function: `none` when the label cannot be taken. -/
structure Machine (State : Type u) (Label : Type v) where
  step : State → Label → Option State

namespace Machine

variable {State : Type u} {Label : Type v} (machine : Machine State Label)

/-- The state after a schedule, provided every label of it can be taken. -/
def run (state : State) : List Label → Option State
  | [] => some state
  | label :: rest => (machine.step state label).bind fun next => run next rest

/-- Every state visited before the schedule ends or first blocks. -/
def Always (property : State → Prop) : State → List Label → Prop
  | state, [] => property state
  | state, label :: rest =>
    property state ∧ ∀ next, machine.step state label = some next → Always property next rest

/-- Every step taken before the schedule ends or first blocks. -/
def AllSteps (relation : State → Label → State → Prop) : State → List Label → Prop
  | _, [] => True
  | state, label :: rest =>
    ∀ next, machine.step state label = some next →
      relation state label next ∧ AllSteps relation next rest

/-- Some schedule leads from the first state to the second. -/
def Reaches (start state : State) : Prop :=
  ∃ schedule, machine.run start schedule = some state

variable {machine}

@[simp] theorem run_nil (state : State) : machine.run state [] = some state := rfl

theorem run_cons (state : State) (label : Label) (rest : List Label) :
    machine.run state (label :: rest) =
      (machine.step state label).bind fun next => machine.run next rest := rfl

theorem run_cons_eq_some {state final : State} {label : Label} {rest : List Label} :
    machine.run state (label :: rest) = some final ↔
      ∃ next, machine.step state label = some next ∧ machine.run next rest = some final :=
  Option.bind_eq_some_iff

theorem run_append (state : State) (first second : List Label) :
    machine.run state (first ++ second) =
      (machine.run state first).bind fun middle => machine.run middle second := by
  induction first generalizing state with
  | nil => rfl
  | cons label rest ih =>
    rw [List.cons_append, run_cons, run_cons]
    cases machine.step state label with
    | none => rfl
    | some next => exact ih next

/-- The last step of a run. -/
theorem run_concat_eq_some {state final : State} {schedule : List Label} {label : Label} :
    machine.run state (schedule ++ [label]) = some final ↔
      ∃ middle, machine.run state schedule = some middle ∧
        machine.step middle label = some final := by
  rw [run_append, Option.bind_eq_some_iff]
  simp [run_cons]

/-- Properties of visited states are properties of the steps that reach them. -/
theorem always_iff_allSteps (property : State → Prop) (state : State) (schedule : List Label) :
    machine.Always property state schedule ↔
      property state ∧ machine.AllSteps (fun _ _ next => property next) state schedule := by
  induction schedule generalizing state with
  | nil => simp [Always, AllSteps]
  | cons label rest ih =>
    constructor
    · intro always
      refine ⟨always.1, ?_⟩
      intro next taken
      exact (ih next).mp (always.2 next taken)
    · intro held
      refine ⟨held.1, ?_⟩
      intro next taken
      exact (ih next).mpr (held.2 next taken)

theorem Always.after {property : State → Prop} {state final : State} {first second : List Label}
    (always : machine.Always property state (first ++ second))
    (reached : machine.run state first = some final) : property final := by
  induction first generalizing state with
  | nil =>
    cases Option.some.inj reached
    cases second with
    | nil => exact always
    | cons label rest => exact always.1
  | cons label rest ih =>
    obtain ⟨next, taken, later⟩ := run_cons_eq_some.mp reached
    exact ih (always.2 next taken) later

theorem Always.final {property : State → Prop} {state final : State} {schedule : List Label}
    (always : machine.Always property state schedule)
    (reached : machine.run state schedule = some final) : property final := by
  have whole : machine.Always property state (schedule ++ []) := by simpa using always
  exact whole.after reached

/-- A step property of a whole schedule holds of each of its suffixes. -/
theorem AllSteps.suffix {relation : State → Label → State → Prop} {state middle : State}
    {first second : List Label} (all : machine.AllSteps relation state (first ++ second))
    (reached : machine.run state first = some middle) :
    machine.AllSteps relation middle second := by
  induction first generalizing state with
  | nil =>
    cases Option.some.inj reached
    exact all
  | cons label rest ih =>
    obtain ⟨next, taken, later⟩ := run_cons_eq_some.mp reached
    exact ih (all next taken).2 later

theorem AllSteps.concat {relation : State → Label → State → Prop} {state final next : State}
    {schedule : List Label} {label : Label} (all : machine.AllSteps relation state schedule)
    (reached : machine.run state schedule = some final)
    (taken : machine.step final label = some next) (last : relation final label next) :
    machine.AllSteps relation state (schedule ++ [label]) := by
  induction schedule generalizing state with
  | nil =>
    cases Option.some.inj reached
    intro other same
    cases taken.symm.trans same
    exact ⟨last, trivial⟩
  | cons first rest ih =>
    obtain ⟨middle, stepped, later⟩ := run_cons_eq_some.mp reached
    intro other same
    cases stepped.symm.trans same
    exact ⟨(all middle stepped).1, ih (all middle stepped).2 later⟩

theorem AllSteps.and {first second : State → Label → State → Prop} {state : State}
    {schedule : List Label} (one : machine.AllSteps first state schedule)
    (other : machine.AllSteps second state schedule) :
    machine.AllSteps (fun before label after => first before label after ∧
      second before label after) state schedule := by
  induction schedule generalizing state with
  | nil => trivial
  | cons label rest ih =>
    intro next taken
    exact ⟨⟨(one next taken).1, (other next taken).1⟩, ih (one next taken).2 (other next taken).2⟩

/-- A decidable property of states can be tested along a schedule. -/
instance decidableAlways (property : State → Prop) [DecidablePred property] (state : State) :
    (schedule : List Label) → Decidable (machine.Always property state schedule)
  | [] => inferInstanceAs (Decidable (property state))
  | label :: rest =>
    match taken : machine.step state label with
    | none => decidable_of_iff (property state) (by simp [Always, taken])
    | some next =>
      have := decidableAlways property next rest
      decidable_of_iff (property state ∧ machine.Always property next rest)
        (by simp [Always, taken])

/-- So can a decidable property of steps. -/
instance decidableAllSteps (relation : State → Label → State → Prop)
    [∀ before label after, Decidable (relation before label after)] (state : State) :
    (schedule : List Label) → Decidable (machine.AllSteps relation state schedule)
  | [] => isTrue trivial
  | label :: rest =>
    match taken : machine.step state label with
    | none => isTrue (by simp [AllSteps, taken])
    | some next =>
      have := decidableAllSteps relation next rest
      decidable_of_iff (relation state label next ∧ machine.AllSteps relation next rest)
        (by simp [AllSteps, taken])

/-- An invariant that every guarded step keeps holds at the end of a guarded run. -/
theorem run_invariant (invariant : State → Prop) (guard : State → Label → State → Prop)
    (keeps : ∀ {before label after}, invariant before → machine.step before label = some after →
      guard before label after → invariant after)
    {state final : State} {schedule : List Label} (initial : invariant state)
    (guarded : machine.AllSteps guard state schedule)
    (reached : machine.run state schedule = some final) : invariant final := by
  induction schedule generalizing state with
  | nil =>
    cases Option.some.inj reached
    exact initial
  | cons label rest ih =>
    obtain ⟨next, taken, later⟩ := run_cons_eq_some.mp reached
    have step := guarded next taken
    exact ih (keeps initial taken step.1) step.2 later

/-- What an invariant implies holds in every state of a guarded run. -/
theorem always_of_guarded (invariant : State → Prop) {property : State → Prop}
    {guard : State → Label → State → Prop} (holds : ∀ {state}, invariant state → property state)
    (keeps : ∀ {before label after}, invariant before → machine.step before label = some after →
      guard before label after → invariant after)
    {state : State} {schedule : List Label} (initial : invariant state)
    (guarded : machine.AllSteps guard state schedule) :
    machine.Always property state schedule := by
  induction schedule generalizing state with
  | nil => exact holds initial
  | cons label rest ih =>
    refine ⟨holds initial, fun next taken => ?_⟩
    have step := guarded next taken
    exact ih (keeps initial taken step.1) step.2

theorem allSteps_of_guarded (invariant : State → Prop)
    {relation guard : State → Label → State → Prop}
    (keeps : ∀ {before label after}, invariant before → machine.step before label = some after →
      guard before label after → relation before label after ∧ invariant after)
    {state : State} {schedule : List Label} (initial : invariant state)
    (guarded : machine.AllSteps guard state schedule) :
    machine.AllSteps relation state schedule := by
  induction schedule generalizing state with
  | nil => trivial
  | cons label rest ih =>
    intro next taken
    obtain ⟨now, later⟩ := guarded next taken
    have step := keeps initial taken now
    exact ⟨step.1, ih step.2 later⟩

/-- A relation that an invariant ensures holds of every step of a run. -/
theorem allSteps_of_invariant (invariant : State → Prop) {relation : State → Label → State → Prop}
    (keeps : ∀ {before label after}, invariant before → machine.step before label = some after →
      relation before label after ∧ invariant after)
    {state : State} (initial : invariant state) (schedule : List Label) :
    machine.AllSteps relation state schedule := by
  induction schedule generalizing state with
  | nil => trivial
  | cons label rest ih =>
    intro next taken
    have step := keeps initial taken
    exact ⟨step.1, ih step.2⟩

theorem always_of_invariant (invariant : State → Prop) {property : State → Prop}
    (holds : ∀ {state}, invariant state → property state)
    (keeps : ∀ {before label after}, invariant before → machine.step before label = some after →
      invariant after)
    {state : State} (initial : invariant state) (schedule : List Label) :
    machine.Always property state schedule := by
  refine (always_iff_allSteps property state schedule).mpr ⟨holds initial, ?_⟩
  apply allSteps_of_invariant invariant _ initial schedule
  intro before label after held taken
  have later := keeps held taken
  exact ⟨holds later, later⟩

/-- A property of the labels of a schedule guards every step of its run. -/
theorem allSteps_of_labels {allowed : Label → Prop} {state : State} {schedule : List Label}
    (free : ∀ label ∈ schedule, allowed label) :
    machine.AllSteps (fun _ label _ => allowed label) state schedule := by
  induction schedule generalizing state with
  | nil => trivial
  | cons label rest ih =>
    intro next taken
    exact ⟨free label List.mem_cons_self, ih fun other later => free other (.tail _ later)⟩

/-- An invariant that knows the weight of the labels taken so far holds along
every schedule whose weight stays within the bound. -/
theorem allSteps_of_counted (weight : Label → Nat) (bound : Nat) (invariant : Nat → State → Prop)
    {relation : State → Label → State → Prop}
    (keeps : ∀ {count before label after}, invariant count before →
      machine.step before label = some after → count + weight label ≤ bound →
      relation before label after ∧ invariant (count + weight label) after)
    {count : Nat} {state : State} {schedule : List Label} (initial : invariant count state)
    (few : count + (schedule.map weight).sum ≤ bound) :
    machine.AllSteps relation state schedule := by
  induction schedule generalizing count state with
  | nil => trivial
  | cons label rest ih =>
    rw [List.map_cons, List.sum_cons, ← Nat.add_assoc] at few
    intro next taken
    have step := keeps initial taken (Nat.le_trans (Nat.le_add_right _ _) few)
    exact ⟨step.1, ih step.2 few⟩

theorem always_of_counted (weight : Label → Nat) (bound : Nat) (invariant : Nat → State → Prop)
    {property : State → Prop} (holds : ∀ {count state}, invariant count state → property state)
    (keeps : ∀ {count before label after}, invariant count before →
      machine.step before label = some after → count + weight label ≤ bound →
      invariant (count + weight label) after)
    {count : Nat} {state : State} {schedule : List Label} (initial : invariant count state)
    (few : count + (schedule.map weight).sum ≤ bound) :
    machine.Always property state schedule := by
  refine (always_iff_allSteps property state schedule).mpr ⟨holds initial, ?_⟩
  refine allSteps_of_counted weight bound invariant ?_ initial few
  intro count before label after held taken within
  have later := keeps held taken within
  exact ⟨holds later, later⟩

theorem Reaches.refl (state : State) : machine.Reaches state state := ⟨[], rfl⟩

/-- The state that a schedule of which every label can be taken ends in. -/
theorem Reaches.get {start : State} {schedule : List Label}
    (runs : (machine.run start schedule).isSome = true) :
    machine.Reaches start ((machine.run start schedule).get runs) :=
  ⟨schedule, (Option.some_get runs).symm⟩

theorem Reaches.next {start state next : State} (reached : machine.Reaches start state)
    {label : Label} (taken : machine.step state label = some next) :
    machine.Reaches start next := by
  obtain ⟨schedule, same⟩ := reached
  refine ⟨schedule ++ [label], ?_⟩
  exact run_concat_eq_some.mpr ⟨state, same, taken⟩

theorem Reaches.trans {start middle final : State} (first : machine.Reaches start middle)
    (second : machine.Reaches middle final) : machine.Reaches start final := by
  obtain ⟨early, reached⟩ := first
  obtain ⟨late, same⟩ := second
  refine ⟨early ++ late, ?_⟩
  rw [run_append, reached, Option.bind_some, same]

theorem Reaches.invariant {invariant : State → Prop}
    (keeps : ∀ {before label after}, invariant before → machine.step before label = some after →
      invariant after)
    {start state : State} (initial : invariant start) (reached : machine.Reaches start state) :
    invariant state := by
  obtain ⟨schedule, same⟩ := reached
  have free : machine.AllSteps (fun _ _ _ => True) start schedule :=
    allSteps_of_invariant (fun _ => True) (fun _ _ => ⟨trivial, trivial⟩) trivial schedule
  exact run_invariant invariant (fun _ _ _ => True) (fun held taken _ => keeps held taken)
    initial free same

/-- Simulation rule: when each guarded step from related states can be followed by
steps of another machine to related states, so can each guarded run. -/
theorem run_simulates {State' : Type u'} {Label' : Type v'} {other : Machine State' Label'}
    {relation : State → State' → Prop} {guard : State → Label → State → Prop}
    (follows : ∀ {before label after abstract}, relation before abstract →
      machine.step before label = some after → guard before label after →
      ∃ later, other.Reaches abstract later ∧ relation after later)
    {state final : State} {abstract : State'} {schedule : List Label}
    (related : relation state abstract) (guarded : machine.AllSteps guard state schedule)
    (reached : machine.run state schedule = some final) :
    ∃ later, other.Reaches abstract later ∧ relation final later := by
  induction schedule generalizing state abstract with
  | nil =>
    cases Option.some.inj reached
    exact ⟨abstract, .refl abstract, related⟩
  | cons label rest ih =>
    obtain ⟨next, taken, later⟩ := run_cons_eq_some.mp reached
    have step := guarded next taken
    obtain ⟨middle, first, held⟩ := follows related taken step.1
    obtain ⟨last, second, final⟩ := ih held step.2 later
    exact ⟨last, first.trans second, final⟩

theorem Reaches.simulates {State' : Type u'} {Label' : Type v'} {other : Machine State' Label'}
    {relation : State → State' → Prop}
    (follows : ∀ {before label after abstract}, relation before abstract →
      machine.step before label = some after →
      ∃ later, other.Reaches abstract later ∧ relation after later)
    {start state : State} {abstract : State'} (related : relation start abstract)
    (reached : machine.Reaches start state) :
    ∃ later, other.Reaches abstract later ∧ relation state later := by
  obtain ⟨schedule, same⟩ := reached
  have free : machine.AllSteps (fun _ _ _ => True) start schedule :=
    allSteps_of_invariant (fun _ => True) (fun _ _ => ⟨trivial, trivial⟩) trivial schedule
  exact run_simulates (fun held taken _ => follows held taken) related free same

/-- Refinement rule: when a step does to the view of a state what another machine
does, and is possible exactly when the other's is, so is each run. -/
theorem run_map {State' : Type u'} {other : Machine State' Label} (view : State → State')
    (invariant : State → Prop)
    (follows : ∀ {state label}, invariant state →
      (machine.step state label).map view = other.step (view state) label)
    (keeps : ∀ {before label after}, invariant before → machine.step before label = some after →
      invariant after)
    {state : State} (initial : invariant state) (schedule : List Label) :
    (machine.run state schedule).map view = other.run (view state) schedule := by
  induction schedule generalizing state with
  | nil => rfl
  | cons label rest ih =>
    rw [run_cons, run_cons, ← follows initial]
    cases taken : machine.step state label with
    | none => rfl
    | some next => exact ih (keeps initial taken)

/-- Exactness rule: when an invariant makes a step property equivalent to a
guard, and guarded steps keep the invariant, a run has the property throughout
exactly when all its steps are guarded. What is assumed of every step helps. -/
theorem allSteps_iff_assuming (invariant : State → Prop)
    {relation guard assumed : State → Label → State → Prop}
    (exact : ∀ {before label after}, invariant before → machine.step before label = some after →
      assumed before label after → (relation before label after ↔ guard before label after))
    (keeps : ∀ {before label after}, invariant before → machine.step before label = some after →
      assumed before label after → guard before label after → invariant after)
    {state : State} (initial : invariant state) {schedule : List Label}
    (given : machine.AllSteps assumed state schedule) :
    machine.AllSteps relation state schedule ↔ machine.AllSteps guard state schedule := by
  induction schedule generalizing state with
  | nil => exact Iff.rfl
  | cons label rest ih =>
    constructor
    · intro all next taken
      obtain ⟨now, later⟩ := given next taken
      have guarded := (exact initial taken now).mp (all next taken).1
      exact ⟨guarded, (ih (keeps initial taken now guarded) later).mp (all next taken).2⟩
    · intro all next taken
      obtain ⟨now, later⟩ := given next taken
      have guarded := (all next taken).1
      exact ⟨(exact initial taken now).mpr guarded,
        (ih (keeps initial taken now guarded) later).mpr (all next taken).2⟩

/-- The exactness rule with nothing assumed. -/
theorem allSteps_iff (invariant : State → Prop) {relation guard : State → Label → State → Prop}
    (exact : ∀ {before label after}, invariant before → machine.step before label = some after →
      (relation before label after ↔ guard before label after))
    (keeps : ∀ {before label after}, invariant before → machine.step before label = some after →
      guard before label after → invariant after)
    {state : State} (initial : invariant state) (schedule : List Label) :
    machine.AllSteps relation state schedule ↔ machine.AllSteps guard state schedule := by
  have free : machine.AllSteps (fun _ _ _ => True) state schedule :=
    allSteps_of_invariant (fun _ => True) (fun _ _ => ⟨trivial, trivial⟩) trivial schedule
  exact allSteps_iff_assuming invariant (fun held taken _ => exact held taken)
    (fun held taken _ => keeps held taken) initial free

/-- The exactness rule for a property of states. -/
theorem always_iff (invariant : State → Prop) {property : State → Prop}
    {guard : State → Label → State → Prop}
    (holds : ∀ {state}, invariant state → property state)
    (exact : ∀ {before label after}, invariant before → machine.step before label = some after →
      (property after ↔ guard before label after))
    (keeps : ∀ {before label after}, invariant before → machine.step before label = some after →
      guard before label after → invariant after)
    {state : State} (initial : invariant state) (schedule : List Label) :
    machine.Always property state schedule ↔ machine.AllSteps guard state schedule := by
  rw [always_iff_allSteps]
  constructor
  · intro held
    exact (allSteps_iff invariant exact keeps initial schedule).mp held.2
  · intro guarded
    exact ⟨holds initial, (allSteps_iff invariant exact keeps initial schedule).mpr guarded⟩

end Machine

/-- Extracting one element of a list, as a split around its position. -/
theorem split_of_getElem? {α : Type u} {items : List α} {index : Nat} {item : α}
    (found : items[index]? = some item) :
    ∃ before after, items = before ++ item :: after ∧ before.length = index ∧
      items.eraseIdx index = before ++ after := by
  induction items generalizing index with
  | nil => simp at found
  | cons head rest ih =>
    cases index with
    | zero =>
      cases Option.some.inj (by simpa using found)
      exact ⟨[], rest, rfl, rfl, rfl⟩
    | succ index =>
      obtain ⟨before, after, same, length, erased⟩ := ih (by simpa using found)
      refine ⟨head :: before, after, ?_, ?_, ?_⟩
      · rw [same, List.cons_append]
      · rw [List.length_cons, length]
      · rw [List.eraseIdx_cons_succ, erased, List.cons_append]

/-- Replacing one element of a list, as a split around its position. -/
theorem split_of_set {α : Type u} {items : List α} {index : Nat} {item : α}
    (found : items[index]? = some item) :
    ∃ before after, items = before ++ item :: after ∧
      ∀ new, items.set index new = before ++ new :: after := by
  obtain ⟨before, after, rfl, rfl, _⟩ := split_of_getElem? found
  exact ⟨before, after, rfl, fun new => by simp⟩

theorem countP_eraseIdx {α : Type u} {items : List α} {index : Nat} {item : α} (test : α → Bool)
    (found : items[index]? = some item) :
    items.countP test = (items.eraseIdx index).countP test + if test item then 1 else 0 := by
  obtain ⟨before, after, rfl, _, erased⟩ := split_of_getElem? found
  rw [erased]
  simp only [List.countP_append, List.countP_cons]
  omega

theorem countP_replace {α : Type u} {items : List α} {index : Nat} {item : α} (test : α → Bool)
    (found : items[index]? = some item) (new : α) :
    (items.set index new).countP test + (if test item then 1 else 0) =
      items.countP test + if test new then 1 else 0 := by
  obtain ⟨before, after, rfl, replaced⟩ := split_of_set found
  rw [replaced]
  simp only [List.countP_append, List.countP_cons]
  omega

theorem mem_set_of_ne {α : Type u} {items : List α} {index : Nat} {item other new : α}
    (found : items[index]? = some item) (member : other ∈ items) (different : other ≠ item) :
    other ∈ items.set index new := by
  obtain ⟨before, after, rfl, replaced⟩ := split_of_set found
  rw [replaced]
  rcases List.mem_append.mp member with early | rest
  · exact List.mem_append_left _ early
  · rcases List.mem_cons.mp rest with same | late
    · exact absurd same different
    · exact List.mem_append_right _ (List.mem_cons_of_mem _ late)

theorem mem_eraseIdx_of_ne {α : Type u} {items : List α} {index : Nat} {item other : α}
    (found : items[index]? = some item) (member : other ∈ items) (different : other ≠ item) :
    other ∈ items.eraseIdx index := by
  obtain ⟨before, after, rfl, _, erased⟩ := split_of_getElem? found
  rw [erased]
  simpa [different] using member

end RpcLoop.Foundation
