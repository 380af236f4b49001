import Mathlib.Data.List.Induction
import Mathlib.Data.List.Perm.Basic
import Mathlib.Logic.Function.Basic
import RpcLoop.Foundation.Machine

/-! Critical sections. A call takes locks, runs statements on the parts of the
memory that they guard, releases the locks and returns. Whatever the statements
of different threads do in between each other, the calls take effect one at a
time, each at some moment between its beginning and its return. -/

namespace RpcLoop.Foundation

universe u v w x y z

/-- A statement reads and writes one part of the memory and the variables of its
call; there is no result where its behaviour is undefined. -/
structure Statement (μ : Type v) (β : Type w) (σ : Type x) where
  part : μ
  run : β → σ → Option (β × σ)

/-- The code of a call. -/
structure Section (μ : Type v) (β : Type w) (σ : Type x) (ρ : Type y) where
  locks : List μ
  initial : σ
  body : List (Statement μ β σ)
  unlocks : List μ
  result : σ → ρ
  nodup : locks.Nodup
  released : unlocks.Perm locks
  guarded : ∀ statement ∈ body, statement.part ∈ locks

/-- What is left to do of a call, and its variables. -/
structure Remaining (μ : Type v) (β : Type w) (σ : Type x) where
  locking : List μ
  todo : List (Statement μ β σ)
  unlocking : List μ
  env : σ

/-- The beginning of a call, or its return. -/
inductive Moment (τ : Type u) (ω : Type z) (ρ : Type y) where
  | called (thread : τ) (call : ω)
  | returned (thread : τ) (result : ρ)

/-- Threads that run calls statement by statement. -/
structure Sections (τ : Type u) (μ : Type v) (β : Type w) (σ : Type x) (ρ : Type y)
    (ω : Type z) where
  memory : μ → β
  holder : μ → Option τ
  calls : τ → Option (ω × Remaining μ β σ)
  history : List (Moment τ ω ρ)

/-- Threads whose calls take effect at once, with the result that a call has then. -/
structure AtomicCalls (τ : Type u) (μ : Type v) (β : Type w) (ρ : Type y) (ω : Type z) where
  memory : μ → β
  calls : τ → Option (ω × Option ρ)
  history : List (Moment τ ω ρ)

/-- A thread begins a call, goes on with it, or returns. -/
inductive CallEvent (τ : Type u) (ω : Type z) where
  | call (thread : τ) (call : ω)
  | run (thread : τ)
  | ret (thread : τ)

variable {τ : Type u} {μ : Type v} {β : Type w} {σ : Type x} {ρ : Type y} {ω : Type z}
  [DecidableEq τ] [DecidableEq μ]

/-! ### Statements -/

/-- Statements one after the other. -/
def effect : List (Statement μ β σ) → (μ → β) → σ → Option ((μ → β) × σ)
  | [], memory, env => some (memory, env)
  | statement :: rest, memory, env =>
    (statement.run (memory statement.part) env).bind fun (value, env) =>
      effect rest (Function.update memory statement.part value) env

theorem effect_append (first second : List (Statement μ β σ)) (memory : μ → β) (env : σ) :
    effect (first ++ second) memory env =
      (effect first memory env).bind fun (memory, env) => effect second memory env := by
  induction first generalizing memory env with
  | nil => rfl
  | cons statement rest ih =>
    simp only [List.cons_append, effect, Option.bind_assoc, ih]

private theorem effect_outside {body : List (Statement μ β σ)} {memory next : μ → β} {env later : σ}
    (runs : effect body memory env = some (next, later)) {part : μ}
    (outside : ∀ statement ∈ body, statement.part ≠ part) : next part = memory part := by
  induction body generalizing memory env with
  | nil =>
    cases runs
    rfl
  | cons statement rest ih =>
    obtain ⟨⟨value, middle⟩, first, second⟩ := Option.bind_eq_some_iff.mp runs
    rw [ih second fun other member => outside other (.tail _ member)]
    exact Function.update_of_ne (outside statement List.mem_cons_self).symm _ _

private theorem effect_congr {parts : List μ} {body : List (Statement μ β σ)}
    (inside : ∀ statement ∈ body, statement.part ∈ parts) {memory other next : μ → β}
    {env later : σ} (same : ∀ part ∈ parts, other part = memory part)
    (runs : effect body memory env = some (next, later)) :
    ∃ after, effect body other env = some (after, later) ∧
      ∀ part ∈ parts, after part = next part := by
  induction body generalizing memory other env with
  | nil =>
    cases runs
    exact ⟨other, rfl, same⟩
  | cons statement rest ih =>
    obtain ⟨⟨value, middle⟩, first, second⟩ := Option.bind_eq_some_iff.mp runs
    have still : ∀ part ∈ parts, Function.update other statement.part value part =
        Function.update memory statement.part value part := by
      intro part member
      by_cases equal : part = statement.part
      · subst equal
        simp
      · simp [equal, same part member]
    obtain ⟨after, again, agree⟩ := ih (fun other member => inside other (.tail _ member)) still
      second
    refine ⟨after, ?_, agree⟩
    rw [effect, same _ (inside statement List.mem_cons_self), first]
    exact again

namespace Section

/-- What a call does to the memory when nothing comes in between, and its result. -/
def whole (code : Section μ β σ ρ) (memory : μ → β) : Option ((μ → β) × ρ) :=
  (effect code.body memory code.initial).map fun (memory, env) => (memory, code.result env)

/-- By itself the code of every call is defined and does what is asked. -/
def Meets (code : ω → Section μ β σ ρ) (apply : ω → (μ → β) → (μ → β) × ρ) : Prop :=
  ∀ call memory, (code call).whole memory = some (apply call memory)

/-- A call that has run its body and still holds its locks: its result is that of its
effect on some memory, and where it holds the locks this effect is what the memory
shows. -/
def Shows (code : Section μ β σ ρ) (apply : (μ → β) → (μ → β) × ρ) (memory : μ → β) (env : σ) :
    Prop :=
  ∃ before, (apply before).2 = code.result env ∧
    ∀ part ∈ code.locks, (apply before).1 part = memory part

omit [DecidableEq μ] in
theorem Shows.keep {code : Section μ β σ ρ} {apply : (μ → β) → (μ → β) × ρ} {memory next : μ → β}
    {env : σ} (shows : code.Shows apply memory env)
    (same : ∀ part ∈ code.locks, next part = memory part) : code.Shows apply next env := by
  obtain ⟨before, result, shown⟩ := shows
  exact ⟨before, result, fun part member => (shown part member).trans (same part member).symm⟩

def begin (code : Section μ β σ ρ) : Remaining μ β σ where
  locking := code.locks
  todo := code.body
  unlocking := code.unlocks
  env := code.initial

end Section

/-! ### Machines -/

namespace Sections

variable (code : ω → Section μ β σ ρ)

def start (memory : μ → β) : Sections τ μ β σ ρ ω where
  memory := memory
  holder _ := none
  calls _ := none
  history := []

/-- A thread goes on: it waits for its next lock, runs its next statement, or
releases its next lock. -/
def advance (s : Sections τ μ β σ ρ ω) (thread : τ) (call : ω) (left : Remaining μ β σ) :
    Option (Sections τ μ β σ ρ ω) :=
  match left with
  | ⟨mutex :: locking, todo, unlocking, env⟩ =>
    if s.holder mutex = none then
      some { s with
        holder := Function.update s.holder mutex (some thread)
        calls := Function.update s.calls thread (some (call, ⟨locking, todo, unlocking, env⟩)) }
    else none
  | ⟨[], statement :: todo, unlocking, env⟩ =>
    (statement.run (s.memory statement.part) env).map fun (value, env) => { s with
      memory := Function.update s.memory statement.part value
      calls := Function.update s.calls thread (some (call, ⟨[], todo, unlocking, env⟩)) }
  | ⟨[], [], mutex :: unlocking, env⟩ =>
    some { s with
      holder := Function.update s.holder mutex none
      calls := Function.update s.calls thread (some (call, ⟨[], [], unlocking, env⟩)) }
  | ⟨[], [], [], _⟩ => none

def step (s : Sections τ μ β σ ρ ω) : CallEvent τ ω → Option (Sections τ μ β σ ρ ω)
  | .call thread call =>
    match s.calls thread with
    | none => some { s with
        calls := Function.update s.calls thread (some (call, (code call).begin))
        history := s.history ++ [.called thread call] }
    | some _ => none
  | .run thread => (s.calls thread).bind fun (call, left) => s.advance thread call left
  | .ret thread =>
    match s.calls thread with
    | some (call, ⟨[], [], [], env⟩) => some { s with
        calls := Function.update s.calls thread none
        history := s.history ++ [.returned thread ((code call).result env)] }
    | _ => none

def machine : Machine (Sections τ μ β σ ρ ω) (CallEvent τ ω) where
  step := step code

end Sections

namespace AtomicCalls

variable (apply : ω → (μ → β) → (μ → β) × ρ)

def start (memory : μ → β) : AtomicCalls τ μ β ρ ω where
  memory := memory
  calls _ := none
  history := []

def step (s : AtomicCalls τ μ β ρ ω) : CallEvent τ ω → Option (AtomicCalls τ μ β ρ ω)
  | .call thread call =>
    match s.calls thread with
    | none => some { s with
        calls := Function.update s.calls thread (some (call, none))
        history := s.history ++ [.called thread call] }
    | some _ => none
  | .run thread =>
    match s.calls thread with
    | some (call, none) => some { s with
        memory := (apply call s.memory).1
        calls := Function.update s.calls thread (some (call, some (apply call s.memory).2)) }
    | _ => none
  | .ret thread =>
    match s.calls thread with
    | some (_, some result) => some { s with
        calls := Function.update s.calls thread none
        history := s.history ++ [.returned thread result] }
    | _ => none

def machine : Machine (AtomicCalls τ μ β ρ ω) (CallEvent τ ω) where
  step := step apply

end AtomicCalls

namespace Sections

variable {code : ω → Section μ β σ ρ} {apply : ω → (μ → β) → (μ → β) × ρ}
  {s next : Sections τ μ β σ ρ ω} {event : CallEvent τ ω}

/-- The steps of a thread. -/
inductive Transition (code : ω → Section μ β σ ρ) (s : Sections τ μ β σ ρ ω) :
    CallEvent τ ω → Sections τ μ β σ ρ ω → Prop where
  | called (thread : τ) (call : ω) (idle : s.calls thread = none) :
      Transition code s (.call thread call) { s with
        calls := Function.update s.calls thread (some (call, (code call).begin))
        history := s.history ++ [.called thread call] }
  | locked (thread : τ) (call : ω) (mutex : μ) (locking : List μ) (todo : List (Statement μ β σ))
      (unlocking : List μ) (env : σ)
      (stage : s.calls thread = some (call, ⟨mutex :: locking, todo, unlocking, env⟩))
      (free : s.holder mutex = none) :
      Transition code s (.run thread) { s with
        holder := Function.update s.holder mutex (some thread)
        calls := Function.update s.calls thread (some (call, ⟨locking, todo, unlocking, env⟩)) }
  | ran (thread : τ) (call : ω) (statement : Statement μ β σ) (todo : List (Statement μ β σ))
      (unlocking : List μ) (env later : σ) (value : β)
      (stage : s.calls thread = some (call, ⟨[], statement :: todo, unlocking, env⟩))
      (runs : statement.run (s.memory statement.part) env = some (value, later)) :
      Transition code s (.run thread) { s with
        memory := Function.update s.memory statement.part value
        calls := Function.update s.calls thread (some (call, ⟨[], todo, unlocking, later⟩)) }
  | unlocked (thread : τ) (call : ω) (mutex : μ) (unlocking : List μ) (env : σ)
      (stage : s.calls thread = some (call, ⟨[], [], mutex :: unlocking, env⟩)) :
      Transition code s (.run thread) { s with
        holder := Function.update s.holder mutex none
        calls := Function.update s.calls thread (some (call, ⟨[], [], unlocking, env⟩)) }
  | returned (thread : τ) (call : ω) (env : σ)
      (stage : s.calls thread = some (call, ⟨[], [], [], env⟩)) :
      Transition code s (.ret thread) { s with
        calls := Function.update s.calls thread none
        history := s.history ++ [.returned thread ((code call).result env)] }

theorem transition_of_step (taken : (machine code).step s event = some next) :
    Transition code s event next := by
  change step code s event = some next at taken
  cases event with
  | call thread call =>
    simp only [step] at taken
    split at taken
    · rename_i idle
      cases taken
      exact .called thread call idle
    · cases taken
  | run thread =>
    obtain ⟨⟨call, locking, todo, unlocking, env⟩, stage, taken⟩ :=
      Option.bind_eq_some_iff.mp taken
    cases locking with
    | cons mutex locking =>
      simp only [advance] at taken
      split at taken
      · rename_i free
        cases taken
        exact .locked thread call mutex locking todo unlocking env stage free
      · cases taken
    | nil =>
      cases todo with
      | cons statement todo =>
        obtain ⟨⟨value, later⟩, runs, same⟩ := Option.map_eq_some_iff.mp taken
        cases same
        exact .ran thread call statement todo unlocking env later value stage runs
      | nil =>
        cases unlocking with
        | cons mutex unlocking =>
          cases taken
          exact .unlocked thread call mutex unlocking env stage
        | nil => cases taken
  | ret thread =>
    simp only [step] at taken
    split at taken
    · rename_i call env stage
      cases taken
      exact .returned thread call env stage
    · cases taken

/-! ### Linearization -/

/-- Where a thread is in its call, in the atomic machine beside it, and the locks
it holds. Until it has run its body the call has had no effect there, and until it
releases a lock its effect shows in the memory. -/
inductive Aligned (code : ω → Section μ β σ ρ) (apply : ω → (μ → β) → (μ → β) × ρ)
    (s : Sections τ μ β σ ρ ω) (a : AtomicCalls τ μ β ρ ω) (thread : τ) : List μ → Prop where
  | idle (own : s.calls thread = none) (beside : a.calls thread = none) :
      Aligned code apply s a thread []
  | before (call : ω) (left : Remaining μ β σ) (taken : List μ) (done : List (Statement μ β σ))
      (memory : μ → β) (own : s.calls thread = some (call, left))
      (beside : a.calls thread = some (call, none))
      (locks : (code call).locks = taken ++ left.locking)
      (body : (code call).body = done ++ left.todo) (unlocks : left.unlocking = (code call).unlocks)
      (first : done ≠ [] → left.locking = [])
      (runs : effect done a.memory (code call).initial = some (memory, left.env))
      (same : ∀ part ∈ taken, s.memory part = memory part) : Aligned code apply s a thread taken
  | behind (call : ω) (unlocking : List μ) (env : σ)
      (own : s.calls thread = some (call, ⟨[], [], unlocking, env⟩))
      (beside : a.calls thread = some (call, some ((code call).result env)))
      (once : unlocking.Nodup) (tail : unlocking <:+ (code call).unlocks)
      (shown : unlocking = (code call).unlocks → (code call).Shows (apply call) s.memory env) :
      Aligned code apply s a thread unlocking

/-- The atomic machine has the same history, and the same memory where no call
that has not taken effect holds the lock. -/
structure Follows (code : ω → Section μ β σ ρ) (apply : ω → (μ → β) → (μ → β) × ρ)
    (s : Sections τ μ β σ ρ ω) (a : AtomicCalls τ μ β ρ ω) : Prop where
  history : s.history = a.history
  threads : ∀ thread, ∃ held, Aligned code apply s a thread held ∧
    ∀ mutex, s.holder mutex = some thread ↔ mutex ∈ held
  memory : ∀ part, (∀ thread, s.holder part = some thread →
    ∃ call result, a.calls thread = some (call, some result)) → s.memory part = a.memory part

variable {a b : AtomicCalls τ μ β ρ ω} {thread : τ} {held : List μ}

omit [DecidableEq τ] in
theorem Follows.initial (code : ω → Section μ β σ ρ) (apply : ω → (μ → β) → (μ → β) × ρ)
    (memory : μ → β) :
    Follows code apply (start memory : Sections τ μ β σ ρ ω) (.start memory) where
  history := rfl
  threads thread := ⟨[], .idle rfl rfl, by simp [start]⟩
  memory _ _ := rfl

omit [DecidableEq τ] in
theorem Aligned.keep (aligned : Aligned code apply s a thread held)
    (own : next.calls thread = s.calls thread) (beside : b.calls thread = a.calls thread)
    (memory : ∀ part ∈ held, next.memory part = s.memory part ∧ b.memory part = a.memory part) :
    Aligned code apply next b thread held := by
  cases aligned with
  | idle idle same => exact .idle (own.trans idle) (beside.trans same)
  | behind call _ env stage effective once tail shown =>
    refine .behind call _ env (own.trans stage) (beside.trans effective) once tail fun whole => ?_
    refine (shown whole).keep fun part member => (memory part ?_).1
    rw [whole]
    exact (code call).released.mem_iff.mpr member
  | before call left _ done after stage pending locks body unlocks first runs same =>
    have inside : ∀ statement ∈ done, statement.part ∈ held := by
      intro statement member
      have all := first (List.ne_nil_of_mem member)
      rw [all, List.append_nil] at locks
      rw [← locks]
      exact (code call).guarded statement (by rw [body]; exact List.mem_append_left _ member)
    obtain ⟨later, again, agree⟩ := effect_congr inside (fun part member => (memory part member).2)
      runs
    refine .before call left held done later (own.trans stage) (beside.trans pending) locks body
      unlocks first again fun part member => ?_
    rw [(memory part member).1, same part member, agree part member]

omit [DecidableEq μ] in
private theorem effective_of_update {calls : τ → Option (ω × Option ρ)}
    {new : Option (ω × Option ρ)} {other : τ} (different : other ≠ thread)
    (effective : ∃ call result, Function.update calls thread new other = some (call, some result)) :
    ∃ call result, calls other = some (call, some result) := by
  rwa [Function.update_of_ne different] at effective

theorem Follows.commit (meets : Section.Meets code apply) (follows : Follows code apply s a)
    {call : ω} {unlocking : List μ} {env : σ}
    (stage : s.calls thread = some (call, ⟨[], [], unlocking, env⟩)) :
    ∃ b, (AtomicCalls.machine apply).Reaches a b ∧ Follows code apply s b ∧
      b.calls thread = some (call, some ((code call).result env)) := by
  obtain ⟨held, aligned, holds⟩ := follows.threads thread
  cases aligned with
  | idle own => cases own.symm.trans stage
  | behind other _ later own beside =>
    cases own.symm.trans stage
    exact ⟨a, .refl a, follows, beside⟩
  | before other left _ done memory own beside locks body unlocks first runs same =>
    cases own.symm.trans stage
    rw [List.append_nil] at locks body
    subst body
    dsimp only at unlocks
    have effective : apply call a.memory = (memory, (code call).result env) := by
      have same := meets call a.memory
      rw [Section.whole, runs] at same
      exact (Option.some.inj same).symm
    have taken : (AtomicCalls.machine apply).step a (.run thread) = some { a with
        memory := memory
        calls := Function.update a.calls thread (some (call, some ((code call).result env))) } := by
      simp only [AtomicCalls.machine, AtomicCalls.step, beside, effective]
    have outside : ∀ part, part ∉ held → memory part = a.memory part := by
      intro part unlocked
      refine effect_outside runs fun statement member equal => unlocked ?_
      rw [← locks, ← equal]
      exact (code call).guarded statement member
    refine ⟨_, (Machine.Reaches.refl a).next taken, ⟨follows.history, fun other => ?_, ?_⟩,
      Function.update_self _ _ _⟩
    · by_cases equal : other = thread
      · subst equal
        refine ⟨unlocking, .behind call unlocking env stage (Function.update_self _ _ _) ?_ ?_ ?_,
          fun mutex => ?_⟩
        · rw [unlocks]
          exact (code call).released.nodup_iff.mpr (code call).nodup
        · exact unlocks ▸ List.suffix_refl _
        · refine fun _ => ⟨a.memory, congrArg Prod.snd effective, fun part member => ?_⟩
          rw [effective]
          exact (same part (locks ▸ member)).symm
        · rw [holds, unlocks, ← locks, (code call).released.mem_iff]
      · obtain ⟨theirs, position, owns⟩ := follows.threads other
        refine ⟨theirs, position.keep rfl (Function.update_of_ne equal _ _) fun part member =>
          ⟨rfl, outside part fun mine => ?_⟩, owns⟩
        exact equal (Option.some.inj (((owns part).mpr member).symm.trans ((holds part).mpr mine)))
    · intro part settled
      by_cases mine : part ∈ held
      · exact same part mine
      · refine Eq.trans (follows.memory part fun other owner => ?_) (outside part mine).symm
        have different : other ≠ thread := by
          rintro rfl
          exact mine ((holds part).mp owner)
        exact effective_of_update different (settled other owner)

private theorem Follows.called (follows : Follows code apply s a) (call : ω)
    (idle : s.calls thread = none) :
    ∃ b, (AtomicCalls.machine apply).Reaches a b ∧ Follows code apply { s with
      calls := Function.update s.calls thread (some (call, (code call).begin))
      history := s.history ++ [.called thread call] } b := by
  obtain ⟨held, aligned, holds⟩ := follows.threads thread
  have nothing : a.calls thread = none ∧ held = [] := by
    cases aligned with
    | idle own beside => exact ⟨beside, rfl⟩
    | before _ _ _ _ _ own => cases own.symm.trans idle
    | behind _ _ _ own => cases own.symm.trans idle
  obtain ⟨beside, rfl⟩ := nothing
  have taken : (AtomicCalls.machine apply).step a (.call thread call) = some { a with
      calls := Function.update a.calls thread (some (call, none))
      history := a.history ++ [.called thread call] } := by
    simp only [AtomicCalls.machine, AtomicCalls.step, beside]
  refine ⟨_, (Machine.Reaches.refl a).next taken, ⟨?_, fun other => ?_, ?_⟩⟩
  · rw [follows.history]
  · by_cases equal : other = thread
    · subst equal
      refine ⟨[], .before call (code call).begin [] [] a.memory (Function.update_self _ _ _)
        (Function.update_self _ _ _) rfl rfl rfl (fun none => absurd rfl none) rfl ?_, holds⟩
      intro part member
      cases member
    · obtain ⟨theirs, position, owns⟩ := follows.threads other
      exact ⟨theirs, position.keep (Function.update_of_ne equal _ _)
        (Function.update_of_ne equal _ _) fun _ _ => ⟨rfl, rfl⟩, owns⟩
  · intro part settled
    refine follows.memory part fun other owner => ?_
    have different : other ≠ thread := by
      rintro rfl
      cases (holds part).mp owner
    exact effective_of_update different (settled other owner)

private theorem Follows.locked (follows : Follows code apply s a) {call : ω} {mutex : μ}
    {locking unlocking : List μ} {todo : List (Statement μ β σ)} {env : σ}
    (stage : s.calls thread = some (call, ⟨mutex :: locking, todo, unlocking, env⟩))
    (free : s.holder mutex = none) : Follows code apply { s with
      holder := Function.update s.holder mutex (some thread)
      calls := Function.update s.calls thread
        (some (call, ⟨locking, todo, unlocking, env⟩)) } a := by
  obtain ⟨held, aligned, holds⟩ := follows.threads thread
  have unheld : mutex ∉ held := fun mine => by cases free.symm.trans ((holds mutex).mpr mine)
  have fresh : s.memory mutex = a.memory mutex :=
    follows.memory mutex fun other owner => by cases free.symm.trans owner
  refine ⟨follows.history, fun other => ?_, fun part settled => ?_⟩
  · by_cases equal : other = thread
    · subst equal
      refine ⟨held ++ [mutex], ?_, fun another => ?_⟩
      · cases aligned with
        | idle own => cases own.symm.trans stage
        | behind _ _ _ own => cases own.symm.trans stage
        | before _ _ _ done memory own beside locks body unlocks first runs same =>
        cases own.symm.trans stage
        have none : done = [] := by
          by_contra some
          cases first some
        subst none
        cases runs
        refine .before call _ (held ++ [mutex]) [] a.memory (Function.update_self _ _ _) beside
          ?_ body unlocks (fun some => absurd rfl some) rfl fun part member => ?_
        · rw [List.append_assoc]
          exact locks
        · rcases List.mem_append.mp member with old | new
          · exact same part old
          · rw [List.mem_singleton.mp new]
            exact fresh
      · by_cases new : another = mutex
        · subst new
          simp
        · simp [new, holds]
    · obtain ⟨theirs, position, owns⟩ := follows.threads other
      refine ⟨theirs, position.keep (Function.update_of_ne equal _ _) rfl fun _ _ => ⟨rfl, rfl⟩,
        fun another => ?_⟩
      by_cases new : another = mutex
      · subst new
        have never : another ∉ theirs := fun member => by
          cases free.symm.trans ((owns another).mpr member)
        simp [never, Ne.symm equal]
      · simp [Function.update_of_ne new, owns]
  · by_cases new : part = mutex
    · rw [new]
      exact fresh
    · exact follows.memory part fun other owner =>
        settled other ((Function.update_of_ne new _ _).trans owner)

private theorem Follows.ran (follows : Follows code apply s a) {call : ω}
    {statement : Statement μ β σ} {todo : List (Statement μ β σ)} {unlocking : List μ}
    {env later : σ} {value : β}
    (stage : s.calls thread = some (call, ⟨[], statement :: todo, unlocking, env⟩))
    (runs : statement.run (s.memory statement.part) env = some (value, later)) :
    Follows code apply { s with
      memory := Function.update s.memory statement.part value
      calls := Function.update s.calls thread (some (call, ⟨[], todo, unlocking, later⟩)) } a := by
  obtain ⟨held, aligned, holds⟩ := follows.threads thread
  cases aligned with
  | idle own => cases own.symm.trans stage
  | behind _ _ _ own => cases own.symm.trans stage
  | before _ _ _ done memory own beside locks body unlocks first before same =>
  cases own.symm.trans stage
  dsimp only at locks body unlocks before
  rw [List.append_nil] at locks
  have member : statement.part ∈ held := by
    rw [← locks]
    refine (code call).guarded statement ?_
    rw [body]
    exact List.mem_append_right _ List.mem_cons_self
  have owner : s.holder statement.part = some thread := (holds _).mpr member
  refine ⟨follows.history, fun other => ?_, fun part settled => ?_⟩
  · by_cases equal : other = thread
    · subst equal
      refine ⟨held, .before call _ held (done ++ [statement])
        (Function.update memory statement.part value) (Function.update_self _ _ _) beside ?_ ?_
        unlocks (fun _ => rfl) ?_ fun part mine => ?_, holds⟩
      · rw [List.append_nil]
        exact locks
      · rw [List.append_assoc]
        exact body
      · rw [same _ member] at runs
        rw [effect_append, before]
        simp [effect, runs]
      · by_cases changed : part = statement.part
        · subst changed
          simp
        · simp [Function.update_of_ne changed, same part mine]
    · obtain ⟨theirs, position, owns⟩ := follows.threads other
      refine ⟨theirs, position.keep (Function.update_of_ne equal _ _) rfl fun part mine =>
        ⟨Function.update_of_ne ?_ _ _, rfl⟩, owns⟩
      rintro rfl
      exact equal (Option.some.inj (((owns _).mpr mine).symm.trans owner))
  · have changed : part ≠ statement.part := by
      rintro rfl
      obtain ⟨_, _, effective⟩ := settled thread owner
      cases beside.symm.trans effective
    rw [← follows.memory part settled]
    exact Function.update_of_ne changed _ _

private theorem Follows.unlocked (meets : Section.Meets code apply)
    (follows : Follows code apply s a) {call : ω} {mutex : μ} {unlocking : List μ} {env : σ}
    (stage : s.calls thread = some (call, ⟨[], [], mutex :: unlocking, env⟩)) :
    ∃ b, (AtomicCalls.machine apply).Reaches a b ∧ Follows code apply { s with
      holder := Function.update s.holder mutex none
      calls := Function.update s.calls thread (some (call, ⟨[], [], unlocking, env⟩)) } b := by
  obtain ⟨b, reached, later, effective⟩ := follows.commit meets stage
  obtain ⟨held, aligned, holds⟩ := later.threads thread
  cases aligned with
  | idle own => cases own.symm.trans stage
  | before _ _ _ _ _ _ pending => cases pending.symm.trans effective
  | behind _ _ _ own _ once tail =>
  cases own.symm.trans stage
  obtain ⟨unique, rest⟩ := List.nodup_cons.mp once
  have owner : s.holder mutex = some thread := (holds _).mpr List.mem_cons_self
  refine ⟨b, reached, later.history, fun other => ?_, fun part settled => ?_⟩
  · by_cases equal : other = thread
    · subst equal
      refine ⟨unlocking, .behind call unlocking env (Function.update_self _ _ _) effective rest
        ((List.suffix_cons _ _).trans tail) ?_, fun another => ?_⟩
      · intro whole
        have longer := tail.length_le
        rw [← whole] at longer
        exact absurd longer (Nat.not_succ_le_self _)
      by_cases gone : another = mutex
      · subst gone
        simp [unique]
      · simp [holds, gone]
    · obtain ⟨theirs, position, owns⟩ := later.threads other
      refine ⟨theirs, position.keep (Function.update_of_ne equal _ _) rfl fun _ _ => ⟨rfl, rfl⟩,
        fun another => ?_⟩
      by_cases gone : another = mutex
      · subst gone
        have never : another ∉ theirs := fun member =>
          equal (Option.some.inj (((owns another).mpr member).symm.trans owner))
        simp [never]
      · simp [Function.update_of_ne gone, owns]
  · refine later.memory part fun other held => ?_
    by_cases gone : part = mutex
    · subst gone
      rw [← Option.some.inj (owner.symm.trans held)]
      exact ⟨_, _, effective⟩
    · exact settled other ((Function.update_of_ne gone _ _).trans held)

private theorem Follows.returned (meets : Section.Meets code apply)
    (follows : Follows code apply s a) {call : ω} {env : σ}
    (stage : s.calls thread = some (call, ⟨[], [], [], env⟩)) :
    ∃ b, (AtomicCalls.machine apply).Reaches a b ∧ Follows code apply { s with
      calls := Function.update s.calls thread none
      history := s.history ++ [.returned thread ((code call).result env)] } b := by
  obtain ⟨b, reached, later, effective⟩ := follows.commit meets stage
  obtain ⟨held, aligned, holds⟩ := later.threads thread
  have taken : (AtomicCalls.machine apply).step b (.ret thread) = some { b with
      calls := Function.update b.calls thread none
      history := b.history ++ [.returned thread ((code call).result env)] } := by
    simp only [AtomicCalls.machine, AtomicCalls.step, effective]
  cases aligned with
  | idle own => cases own.symm.trans stage
  | before _ _ _ _ _ _ pending => cases pending.symm.trans effective
  | behind _ _ _ own =>
  cases own.symm.trans stage
  refine ⟨_, reached.next taken, ?_, fun other => ?_, fun part settled => ?_⟩
  · rw [later.history]
  · by_cases equal : other = thread
    · subst equal
      exact ⟨[], .idle (Function.update_self _ _ _) (Function.update_self _ _ _), holds⟩
    · obtain ⟨theirs, position, owns⟩ := later.threads other
      exact ⟨theirs, position.keep (Function.update_of_ne equal _ _)
        (Function.update_of_ne equal _ _) fun _ _ => ⟨rfl, rfl⟩, owns⟩
  · refine later.memory part fun other owner => ?_
    have different : other ≠ thread := by
      rintro rfl
      cases (holds part).mp owner
    exact effective_of_update different (settled other owner)

/-- Each step of a thread is none, or one or two steps of the atomic machine. -/
theorem Follows.step (meets : Section.Meets code apply) (follows : Follows code apply s a)
    (transition : Transition code s event next) :
    ∃ b, (AtomicCalls.machine apply).Reaches a b ∧ Follows code apply next b := by
  cases transition with
  | called thread call idle => exact follows.called call idle
  | locked thread call mutex locking todo unlocking env stage free =>
    exact ⟨a, .refl a, follows.locked stage free⟩
  | ran thread call statement todo unlocking env later value stage runs =>
    exact ⟨a, .refl a, follows.ran stage runs⟩
  | unlocked thread call mutex unlocking env stage => exact follows.unlocked meets stage
  | returned thread call env stage => exact follows.returned meets stage

/-- The atomic calls beside a run. -/
theorem follows_of_reaches (meets : Section.Meets code apply) {memory : μ → β}
    (reached : (machine code).Reaches (start memory : Sections τ μ β σ ρ ω) s) :
    ∃ a, (AtomicCalls.machine apply).Reaches (.start memory) a ∧ Follows code apply s a :=
  Machine.Reaches.simulates (fun follows taken => follows.step meets (transition_of_step taken))
    (Follows.initial code apply memory) reached

/-- Whatever the interleaving, the calls and their results are those of calls that
take effect one at a time; and while no call is in progress so is the memory. -/
theorem linearizable (meets : Section.Meets code apply) {memory : μ → β}
    (reached : (machine code).Reaches (start memory : Sections τ μ β σ ρ ω) s) :
    ∃ a, (AtomicCalls.machine apply).Reaches (.start memory) a ∧ a.history = s.history ∧
      ((∀ thread, s.calls thread = none) → a.memory = s.memory) := by
  obtain ⟨a, beside, follows⟩ := follows_of_reaches meets reached
  refine ⟨a, beside, follows.history.symm, fun idle => funext fun part => ?_⟩
  refine (follows.memory part fun thread owner => ?_).symm
  obtain ⟨held, aligned, holds⟩ := follows.threads thread
  cases aligned with
  | idle => cases (holds part).mp owner
  | before _ _ _ _ _ own => cases (idle thread).symm.trans own
  | behind _ _ _ own => cases (idle thread).symm.trans own

/-- While a call holds all its locks behind its body, the memory shows its effect. -/
theorem shows_of_reaches (meets : Section.Meets code apply) {memory : μ → β}
    (reached : (machine code).Reaches (start memory : Sections τ μ β σ ρ ω) s) {call : ω} {env : σ}
    (stage : s.calls thread = some (call, ⟨[], [], (code call).unlocks, env⟩)) :
    (code call).Shows (apply call) s.memory env := by
  obtain ⟨a, _, follows⟩ := follows_of_reaches meets reached
  obtain ⟨held, aligned, _⟩ := follows.threads thread
  cases aligned with
  | idle own => cases own.symm.trans stage
  | behind _ _ _ own _ _ _ shown =>
    cases own.symm.trans stage
    exact shown rfl
  | before _ _ _ done memory own _ locks body _ _ runs same =>
    cases own.symm.trans stage
    rw [List.append_nil] at locks body
    subst body
    have effective := meets call a.memory
    rw [Section.whole, runs] at effective
    have effective := Option.some.inj effective
    refine ⟨a.memory, congrArg Prod.snd effective.symm, fun part member => ?_⟩
    rw [← effective]
    exact (same part (locks ▸ member)).symm

/-- A call that has run its body came to a moment at which it still held all its
locks, and has been the thread's call since. -/
theorem held_of_run (meets : Section.Meets code apply) {memory : μ → β}
    {schedule : List (CallEvent τ ω)} {call : ω} {unlocking : List μ} {env : σ}
    (reached : (machine code).run (start memory : Sections τ μ β σ ρ ω) schedule = some s)
    (stage : s.calls thread = some (call, ⟨[], [], unlocking, env⟩)) :
    ∃ first second middle, schedule = first ++ second ∧
      (machine code).run (start memory) first = some middle ∧
      middle.calls thread = some (call, ⟨[], [], (code call).unlocks, env⟩) ∧
      .ret thread ∉ second := by
  induction schedule using List.reverseRecOn generalizing s unlocking with
  | nil =>
    cases reached
    cases stage
  | append_singleton schedule event ih =>
    by_cases whole : unlocking = (code call).unlocks
    · exact ⟨_, [], s, (List.append_nil _).symm, reached, whole ▸ stage, List.not_mem_nil⟩
    obtain ⟨middle, earlier, taken⟩ := Machine.run_concat_eq_some.mp reached
    -- Unless the thread has just released a lock, it was there before.
    have back : ∀ unlocking, middle.calls thread = some (call, ⟨[], [], unlocking, env⟩) →
        event ≠ .ret thread → ∃ first second middle, schedule ++ [event] = first ++ second ∧
          (machine code).run (start memory) first = some middle ∧
          middle.calls thread = some (call, ⟨[], [], (code call).unlocks, env⟩) ∧
          .ret thread ∉ second := by
      intro unlocking before other
      obtain ⟨first, second, held, rfl, prior, shown, never⟩ := ih earlier before
      refine ⟨first, second ++ [event], held, List.append_assoc _ _ _, prior, shown, ?_⟩
      simp [never, Ne.symm other]
    obtain ⟨a, _, follows⟩ := follows_of_reaches meets ⟨schedule, earlier⟩
    obtain ⟨held, aligned, _⟩ := follows.threads thread
    cases transition_of_step taken with
    | called other request idle =>
      by_cases mine : thread = other
      · subst mine
        simp only [Function.update_self, Option.some.injEq, Prod.mk.injEq] at stage
        obtain ⟨rfl, begun⟩ := stage
        exact absurd (congrArg Remaining.unlocking begun).symm whole
      · exact back unlocking (by simpa [Function.update_of_ne mine] using stage) (by simp)
    | locked other request mutex locking todo left locals pending free =>
      by_cases mine : thread = other
      · subst mine
        simp only [Function.update_self] at stage
        cases stage
        cases aligned with
        | idle own => cases own.symm.trans pending
        | behind _ _ _ own => cases own.symm.trans pending
        | before _ _ _ _ _ own _ _ _ unlocks =>
          cases own.symm.trans pending
          exact absurd unlocks whole
      · exact back unlocking (by simpa [Function.update_of_ne mine] using stage) (by simp)
    | ran other request statement todo left locals later value pending runs =>
      by_cases mine : thread = other
      · subst mine
        simp only [Function.update_self] at stage
        cases stage
        cases aligned with
        | idle own => cases own.symm.trans pending
        | behind _ _ _ own => cases own.symm.trans pending
        | before _ _ _ _ _ own _ _ _ unlocks =>
          cases own.symm.trans pending
          exact absurd unlocks whole
      · exact back unlocking (by simpa [Function.update_of_ne mine] using stage) (by simp)
    | unlocked other request mutex left locals pending =>
      by_cases mine : thread = other
      · subst mine
        simp only [Function.update_self] at stage
        cases stage
        exact back _ pending (by simp)
      · exact back unlocking (by simpa [Function.update_of_ne mine] using stage) (by simp)
    | returned other request locals pending =>
      by_cases mine : thread = other
      · subst mine
        simp only [Function.update_self] at stage
        cases stage
      · exact back unlocking (by simpa [Function.update_of_ne mine] using stage)
          (by simp [Ne.symm mine])

/-- Calls that are defined by themselves are never undefined beside others. -/
theorem defined (meets : Section.Meets code apply) {memory : μ → β}
    (reached : (machine code).Reaches (start memory : Sections τ μ β σ ρ ω) s) {call : ω}
    {statement : Statement μ β σ} {todo : List (Statement μ β σ)} {unlocking : List μ} {env : σ}
    (stage : s.calls thread = some (call, ⟨[], statement :: todo, unlocking, env⟩)) :
    (statement.run (s.memory statement.part) env).isSome = true := by
  obtain ⟨a, beside, follows⟩ := follows_of_reaches meets reached
  obtain ⟨held, aligned, holds⟩ := follows.threads thread
  cases aligned with
  | idle own => cases own.symm.trans stage
  | behind _ _ _ own => cases own.symm.trans stage
  | before _ _ _ done later own beside locks body unlocks first before same =>
  cases own.symm.trans stage
  have all : ((code call).whole a.memory).isSome = true := by rw [meets call a.memory]; rfl
  dsimp only at locks body before
  rw [List.append_nil] at locks
  have member : statement.part ∈ held := by
    rw [← locks]
    refine (code call).guarded statement ?_
    rw [body]
    exact List.mem_append_right _ List.mem_cons_self
  simp only [Section.whole, Option.isSome_map, body, effect_append, before, Option.bind_some,
    effect] at all
  rw [same _ member]
  exact Option.isSome_of_isSome_bind all

end Sections

end RpcLoop.Foundation
