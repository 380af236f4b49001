import Mathlib.Data.Finset.Card
import Mathlib.Logic.Function.Basic

/-! Memory that is allocated at increasing addresses and freed in any order. How
many addresses are in use follows from what was allocated and what was freed. -/

namespace RpcLoop.Foundation

universe u

variable {α : Type u} {heap : Nat → Option α} {bound p : Nat} {value : α}

/-- The addresses below a bound that are in use. -/
def live (heap : Nat → Option α) (bound : Nat) : Finset Nat :=
  (Finset.range bound).filter fun p => (heap p).isSome = true

theorem mem_live : p ∈ live heap bound ↔ p < bound ∧ (heap p).isSome = true := by simp [live]

theorem card_live_le (heap : Nat → Option α) (bound : Nat) : (live heap bound).card ≤ bound := by
  have most := Finset.card_le_card (Finset.filter_subset (fun p => (heap p).isSome = true)
    (Finset.range bound))
  rwa [Finset.card_range] at most

/-- Writing to an address in use allocates nothing. -/
theorem live_write (found : heap p = some value) (after : α) :
    live (Function.update heap p (some after)) bound = live heap bound := by
  ext q
  by_cases same : q = p
  · subst same
    simp [mem_live, found]
  · simp [mem_live, same]

theorem card_live_new (heap : Nat → Option α) (bound : Nat) (value : α) :
    (live (Function.update heap bound (some value)) (bound + 1)).card =
      (live heap bound).card + 1 := by
  have one : live (Function.update heap bound (some value)) (bound + 1) =
      insert bound (live heap bound) := by
    ext q
    by_cases same : q = bound
    · simp [mem_live, same]
    · have less : q < bound + 1 ↔ q < bound := by omega
      simp [mem_live, same, less]
  rw [one, Finset.card_insert_of_notMem (by simp [mem_live])]

theorem card_live_delete (found : heap p = some value) (inside : p < bound) :
    (live (Function.update heap p none) bound).card + 1 = (live heap bound).card := by
  have member : p ∈ live heap bound := mem_live.mpr ⟨inside, by rw [found]; rfl⟩
  have one : live (Function.update heap p none) bound = (live heap bound).erase p := by
    ext q
    by_cases same : q = p
    · simp [mem_live, same]
    · simp [mem_live, same]
  rw [one, Finset.card_erase_add_one member]

/-- As many different addresses as are in use are all that are in use. -/
theorem eq_none_of_card_live {known : List Nat} (distinct : known.Nodup)
    (inUse : ∀ p ∈ known, ∃ value, heap p = some value)
    (fresh : ∀ p value, heap p = some value → p < bound)
    (card : (live heap bound).card = known.length) (apart : p ∉ known) : heap p = none := by
  have inside : known.toFinset ⊆ live heap bound := by
    intro q member
    obtain ⟨value, found⟩ := inUse q (List.mem_toFinset.mp member)
    exact mem_live.mpr ⟨fresh q value found, by rw [found]; rfl⟩
  have same := Finset.eq_of_subset_of_card_le inside
    (by rw [List.toFinset_card_of_nodup distinct, card])
  cases found : heap p with
  | none => rfl
  | some value =>
    refine absurd (List.mem_toFinset.mp ?_) apart
    rw [same]
    exact mem_live.mpr ⟨fresh p value found, by rw [found]; rfl⟩

end RpcLoop.Foundation
