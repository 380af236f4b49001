import Mathlib.Data.List.Basic

/-! Naming an element of a list by its position, while elements are erased and
appended. Elements are known by distinct identities; a removal at or before the
position is remembered. -/

namespace RpcLoop.Foundation

universe u

/-- A position, the identity found there when it was taken, and whether an
element at or before it has been removed since. -/
structure Slot (α : Type u) where
  position : Nat
  ident : α
  moved : Bool

namespace Slot

variable {α : Type u}

/-- An element is erased from the list. -/
def erased (s : Slot α) (index : Nat) : Slot α :=
  { s with moved := s.moved || decide (index ≤ s.position) }

/-- Until something moves, the element is at its position; afterwards it is at
no position from there on. -/
structure Tracks (idents : List α) (s : Slot α) : Prop where
  here : s.moved = false → idents[s.position]? = some s.ident
  gone : s.moved = true → ∀ index, s.position ≤ index → idents[index]? ≠ some s.ident

variable {idents : List α} {s : Slot α}

/-- The position still shows the element exactly when nothing moved. -/
theorem Tracks.shows_iff (tracks : s.Tracks idents) :
    idents[s.position]? = some s.ident ↔ s.moved = false := by
  constructor
  · intro shown
    cases moved : s.moved with
    | false => rfl
    | true => exact absurd shown (tracks.gone moved _ (Nat.le_refl _))
  · exact tracks.here

theorem tracks_of_getElem? {position : Nat} {ident : α} (found : idents[position]? = some ident) :
    Tracks idents { position := position, ident := ident, moved := false } where
  here _ := found
  gone moved := by cases moved

/-- A new element is none of those that slots name. -/
theorem Tracks.append (tracks : s.Tracks idents) {new : α} (different : s.ident ≠ new) :
    s.Tracks (idents ++ [new]) where
  here := by
    intro still
    have found := tracks.here still
    obtain ⟨inside, _⟩ := List.getElem?_eq_some_iff.mp found
    rw [List.getElem?_append_left inside]
    exact found
  gone := by
    intro moved index after shown
    by_cases inside : index < idents.length
    · rw [List.getElem?_append_left inside] at shown
      exact tracks.gone moved index after shown
    · rw [List.getElem?_append_right (by omega), List.getElem?_singleton] at shown
      split at shown
      · exact different (Option.some.inj shown).symm
      · cases shown

/-- Where identities are distinct, a removal keeps every slot informed. -/
theorem Tracks.eraseIdx (tracks : s.Tracks idents) (distinct : idents.Nodup) (removed : Nat) :
    (s.erased removed).Tracks (idents.eraseIdx removed) where
  here := by
    intro still
    obtain ⟨before, later⟩ : s.moved = false ∧ s.position < removed := by
      simpa [erased] using still
    have found := tracks.here before
    simpa [erased, List.getElem?_eraseIdx_of_lt later] using found
  gone := by
    intro moved index after shown
    change s.position ≤ index at after
    change (idents.eraseIdx removed)[index]? = some s.ident at shown
    rw [List.getElem?_eraseIdx] at shown
    cases before : s.moved with
    | true =>
      split at shown
      · exact tracks.gone before index after shown
      · exact tracks.gone before (index + 1) (by omega) shown
    | false =>
      have early : removed ≤ s.position := by simpa [erased, before] using moved
      rw [if_neg (by omega)] at shown
      have found := tracks.here before
      obtain ⟨inside, _⟩ := List.getElem?_eq_some_iff.mp found
      have same := (List.getElem?_inj inside distinct).mp (found.trans shown.symm)
      omega

end Slot

end RpcLoop.Foundation
