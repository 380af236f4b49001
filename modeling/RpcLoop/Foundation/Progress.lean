import Mathlib.Data.Nat.Find
import Mathlib.Order.WellFounded
import RpcLoop.Foundation.Machine

/-! Runs that finish. Some steps do work, which lowers a measure; others may come
in between and leave the measure alone. -/

namespace RpcLoop.Foundation

universe u v w

namespace Machine

variable {State : Type u} {Label : Type v} (machine : Machine State Label)
  (works idles : State → Label → State → Prop)

/-- An infinite run of steps that work or idle. -/
structure Endless (states : Nat → State) (labels : Nat → Label) : Prop where
  taken : ∀ n, machine.step (states n) (labels n) = some (states (n + 1))
  kinds : ∀ n, works (states n) (labels n) (states (n + 1)) ∨
    idles (states n) (labels n) (states (n + 1))

/-- What is left to do from a state on gets done: no run works forever, some work
reaches the goal, and a run that can work no more has reached it. -/
structure Finishes (goal : State → Prop) (state : State) : Prop where
  ends : ∀ states labels, machine.Endless works idles states labels → states 0 = state →
    ∃ n, ∀ later, n ≤ later → ¬ works (states later) (labels later) (states (later + 1))
  reaches : ∃ schedule final, machine.run state schedule = some final ∧
    machine.AllSteps works state schedule ∧ goal final
  stuck : ∀ schedule final, machine.run state schedule = some final →
    machine.AllSteps (fun before label after => works before label after ∨
      idles before label after) state schedule →
    (∀ label next, machine.step final label = some next → ¬ works final label next) → goal final

variable {machine works idles} {states : Nat → State} {labels : Nat → Label}

theorem Endless.later (endless : machine.Endless works idles states labels) (start : Nat) :
    machine.Endless works idles (fun n => states (start + n)) fun n => labels (start + n) where
  taken n := endless.taken (start + n)
  kinds n := endless.kinds (start + n)

theorem Endless.idle (endless : machine.Endless works idles states labels)
    {invariant : State → Prop} {ρ : Type w} {measure : State → ρ}
    (leaves : ∀ {before label after}, invariant before → machine.step before label = some after →
      idles before label after → measure after = measure before ∧ invariant after)
    (initial : invariant (states 0)) {first : Nat}
    (none : ∀ n, n < first → ¬ works (states n) (labels n) (states (n + 1))) :
    measure (states first) = measure (states 0) ∧ invariant (states first) := by
  induction first with
  | zero => exact ⟨rfl, initial⟩
  | succ first ih =>
    obtain ⟨same, held⟩ := ih fun n before => none n (Nat.lt_succ_of_lt before)
    have idle := (endless.kinds first).resolve_left (none first (Nat.lt_succ_self first))
    obtain ⟨still, kept⟩ := leaves held (endless.taken first) idle
    exact ⟨still.trans same, kept⟩

/-- Work that lowers a well-founded measure finishes, if it can always be done
before the goal is reached. -/
theorem finishes_of_measure (invariant : State → Prop) {goal : State → Prop} {ρ : Type w}
    {less : ρ → ρ → Prop} (wellFounded : WellFounded less) (measure : State → ρ)
    (lowers : ∀ {before label after}, invariant before → machine.step before label = some after →
      works before label after → less (measure after) (measure before) ∧ invariant after)
    (leaves : ∀ {before label after}, invariant before → machine.step before label = some after →
      idles before label after → measure after = measure before ∧ invariant after)
    (enabled : ∀ {state}, invariant state →
      goal state ∨ ∃ label next, machine.step state label = some next ∧ works state label next)
    {state : State} (initial : invariant state) :
    machine.Finishes works idles goal state where
  ends states labels endless begins := by
    subst begins
    induction amount : measure (states 0) using wellFounded.induction
      generalizing states labels with
    | h amount ih =>
    subst amount
    by_cases working : ∃ n, works (states n) (labels n) (states (n + 1))
    · classical
      -- The run behind its first step of work has a smaller measure.
      have first := Nat.find_spec working
      obtain ⟨same, held⟩ := endless.idle leaves initial fun n before => Nat.find_min working before
      obtain ⟨lower, kept⟩ := lowers held (endless.taken _) first
      rw [same] at lower
      obtain ⟨n, after⟩ := ih _ lower _ _ (endless.later (Nat.find working + 1)) kept rfl
      refine ⟨Nat.find working + 1 + n, fun later beyond => ?_⟩
      have later := after (later - (Nat.find working + 1)) (by omega)
      rwa [← Nat.add_assoc, Nat.add_sub_cancel' (by omega)] at later
    · exact ⟨0, fun later _ working' => working ⟨later, working'⟩⟩
  reaches := by
    induction amount : measure state using wellFounded.induction generalizing state with
    | h amount ih =>
    subst amount
    rcases enabled initial with done | ⟨label, next, taken, working⟩
    · exact ⟨[], state, rfl, trivial, done⟩
    · obtain ⟨lower, kept⟩ := lowers initial taken working
      obtain ⟨schedule, final, reached, all, done⟩ := ih _ lower kept rfl
      refine ⟨label :: schedule, final, run_cons_eq_some.mpr ⟨next, taken, reached⟩, ?_, done⟩
      intro other same
      cases taken.symm.trans same
      exact ⟨working, all⟩
  stuck schedule final reached kinds none := by
    have held : invariant final := by
      refine run_invariant invariant _ ?_ initial kinds reached
      intro before label after held taken kind
      rcases kind with working | idling
      · exact (lowers held taken working).2
      · exact (leaves held taken idling).2
    rcases enabled held with done | ⟨label, next, taken, working⟩
    · exact done
    · exact absurd working (none label next taken)

end Machine

theorem sum_eraseIdx {α : Type u} {items : List α} {index : Nat} {item : α} (weight : α → Nat)
    (found : items[index]? = some item) :
    (items.map weight).sum = ((items.eraseIdx index).map weight).sum + weight item := by
  obtain ⟨before, after, rfl, _, erased⟩ := split_of_getElem? found
  rw [erased]
  simp only [List.map_append, List.map_cons, List.sum_append, List.sum_cons]
  omega

/-- Replacing one element takes its weight away and brings that of the new one. -/
theorem sum_set {α : Type u} {items : List α} {index : Nat} {item : α} (weight : α → Nat)
    (found : items[index]? = some item) (new : α) :
    ((items.set index new).map weight).sum + weight item = (items.map weight).sum + weight new := by
  obtain ⟨before, after, rfl, replaced⟩ := split_of_set found
  rw [replaced]
  simp only [List.map_append, List.map_cons, List.sum_append, List.sum_cons]
  omega

end RpcLoop.Foundation
