import Mathlib.Data.List.TakeWhile
import Std.Data.TreeMap.Lemmas

/-! Positions in an ordered map: the entries from one of them on, in the order of
the keys. A position is what an iterator of `std::map` stands for; the position
behind the last entry is empty. -/

namespace RpcLoop.Foundation.MapPosition

universe u v

variable {κ : Type u} {α : Type v} [Ord κ] [Std.TransOrd κ] [Std.LawfulEqOrd κ]

/-- The position of a key, empty when the key is absent. -/
def find (m : Std.TreeMap κ α) (key : κ) : List (κ × α) :=
  m.toList.dropWhile fun entry => compare entry.1 key != .eq

variable {m : Std.TreeMap κ α} {key : κ} {val : α} {front rest : List (κ × α)}

omit [Std.LawfulEqOrd κ] in
theorem lt_of_split (split : m.toList = front ++ (key, val) :: rest) :
    ∀ entry ∈ front, compare entry.1 key = .lt := by
  intro entry member
  have ordered := Std.TreeMap.ordered_keys_toList (t := m)
  rw [split, List.pairwise_append] at ordered
  exact ordered.2.2 entry member (key, val) List.mem_cons_self

omit [Std.LawfulEqOrd κ] in
private theorem gt_of_split (split : m.toList = front ++ (key, val) :: rest) :
    ∀ entry ∈ rest, compare key entry.1 = .lt := by
  intro entry member
  have ordered := Std.TreeMap.ordered_keys_toList (t := m)
  rw [split, List.pairwise_append, List.pairwise_cons] at ordered
  exact ordered.2.1.1 entry member

private theorem mem_of_entry {entry : κ × α} (member : entry ∈ m.toList) : entry.1 ∈ m := by
  rw [Std.TreeMap.mem_iff_isSome_getElem?, Std.TreeMap.mem_toList_iff_getElem?_eq_some.mp member]
  rfl

theorem find_of_split (split : m.toList = front ++ (key, val) :: rest) :
    find m key = (key, val) :: rest := by
  rw [find, split, List.dropWhile_append_of_pos]
  · simp
  · intro entry member
    rw [lt_of_split split entry member]
    rfl

/-- A key that is present splits the entries at its position. -/
theorem split_of_mem (present : key ∈ m) :
    ∃ front val rest, m.toList = front ++ (key, val) :: rest := by
  obtain ⟨val, found⟩ :=
    Option.isSome_iff_exists.mp (Std.TreeMap.mem_iff_isSome_getElem?.mp present)
  have member := Std.TreeMap.mem_toList_iff_getElem?_eq_some.mpr found
  obtain ⟨front, rest, split⟩ := List.append_of_mem member
  exact ⟨front, val, rest, split⟩

theorem find_eq_nil : find m key = [] ↔ key ∉ m := by
  constructor
  · intro nothing present
    obtain ⟨front, val, rest, split⟩ := split_of_mem present
    rw [find_of_split split] at nothing
    cases nothing
  · intro absent
    rw [find, List.dropWhile_eq_nil_iff]
    intro entry member
    rw [bne_iff_ne]
    intro same
    have present := mem_of_entry member
    rw [Std.LawfulEqOrd.compare_eq_iff_eq.mp same] at present
    exact absent present

/-- A later position is found from its own key. -/
theorem find_of_later {entry : κ × α} (split : find m key = front ++ entry :: rest) :
    find m entry.1 = entry :: rest := by
  obtain ⟨early, whole⟩ := List.dropWhile_suffix (l := m.toList)
    fun entry => compare entry.1 key != .eq
  have again : m.toList = (early ++ front) ++ entry :: rest := by
    rw [List.append_assoc, ← split, ← whole]
    rfl
  exact find_of_split again

/-- The entries from the position of a key on are those with no smaller key. -/
theorem mem_find (present : key ∈ m) {other : κ} {val : α} :
    (other, val) ∈ find m key ↔ (compare key other).isLE = true ∧ m[other]? = some val := by
  obtain ⟨front, own, rest, split⟩ := split_of_mem present
  rw [find_of_split split, ← Std.TreeMap.mem_toList_iff_getElem?_eq_some, split]
  constructor
  · intro member
    refine ⟨?_, List.mem_append_right _ member⟩
    rcases List.mem_cons.mp member with same | later
    · cases same
      simp
    · rw [gt_of_split split (other, val) later]
      rfl
  · rintro ⟨least, member⟩
    rcases List.mem_append.mp member with early | late
    · have less := lt_of_split split (other, val) early
      have swapped : compare key other = (compare other key).swap := Std.OrientedCmp.eq_swap
      rw [swapped, less] at least
      cases least
    · exact late

end RpcLoop.Foundation.MapPosition
