import Mathlib.Data.List.Induction
import RpcLoop.Shared.MapIterator

/-! Iterators at the end. `update(iterator)` and `erase(iterator)` do not look at
the end flag; they act on the key that the iterator holds, which is unset or the
last one the iterator stood at. -/

namespace RpcLoop.Shared.MapIterator

open Foundation

universe u v

variable {κ : Type u} {α : Type v} [Ord κ]

/-- `SafeMap::update(iterator)`. -/
def updateItr (wdmap : Std.TreeMap κ α) (val : WDItr κ α) : Bool × Std.TreeMap κ α :=
  update wdmap val.first val.second

/-- `SafeMap::erase(iterator)`. -/
def eraseItr (wdmap : Std.TreeMap κ α) (val : WDItr κ α) : Std.TreeMap κ α :=
  wdmap.erase val.first

/-- The calls that make an iterator, with the map they copy. -/
inductive Origin (κ : Type u) (α : Type v) [Ord κ] where
  | ended (unset : κ × α)
  | begun (tempMap : Std.TreeMap κ α) (unset : κ × α)
  | sought (tempMap : Std.TreeMap κ α) (tKey : κ) (unset : κ × α)

/-- What is done with an iterator; `old` goes on with the copy that `it++` returns. -/
inductive Move where
  | pre
  | post
  | old
  deriving DecidableEq

def Move.increments : Move → Bool
  | .old => false
  | _ => true

def Origin.iterator : Origin κ α → WDItr κ α
  | .ended unset => endItr unset
  | .begun tempMap unset => begin tempMap unset
  | .sought tempMap tKey unset => find tempMap tKey unset

def Move.apply (it : WDItr κ α) : Move → WDItr κ α
  | .pre => it.preIncrement
  | .post => it.postIncrement.2
  | .old => it.postIncrement.1

/-- The iterator after some moves. -/
def Origin.after (origin : Origin κ α) (moves : List Move) : WDItr κ α :=
  moves.foldl Move.apply origin.iterator

/-- The map the iterator walks over. -/
def Origin.snapshot : Origin κ α → Std.TreeMap κ α
  | .ended _ => ∅
  | .begun tempMap _ => tempMap
  | .sought tempMap _ _ => tempMap

/-- The key it holds first: that of an entry, or an unset one. -/
def Origin.key : Origin κ α → κ
  | .ended unset => unset.1
  | .begun tempMap unset =>
    match tempMap.toList with
    | [] => unset.1
    | (key, _) :: _ => key
  | .sought tempMap tKey unset => if tKey ∈ tempMap then tKey else unset.1

/-- The key that an iterator holds at the end: the first one if it was never
incremented or that key is not in its map, otherwise the last key of the map. -/
def Origin.leftKey (origin : Origin κ α) (moves : List Move) : κ :=
  if moves.countP Move.increments = 0 then origin.key
  else
    match (MapPosition.find origin.snapshot origin.key).getLast? with
    | none => origin.key
    | some (key, _) => key

/-- Updates and erases through the iterator do nothing. -/
structure DesignatesNothing (wdmap : Std.TreeMap κ α) (it : WDItr κ α) : Prop where
  update : updateItr wdmap it = (false, wdmap)
  erase : ∀ key : κ, (eraseItr wdmap it)[key]? = wdmap[key]?

/-- What an iterator holds after some moves. -/
structure Holds (origin : Origin κ α) (moves : List Move) (it : WDItr κ α) : Prop where
  map : it.tempMap = origin.snapshot
  first : moves.countP Move.increments = 0 → it.first = origin.key
  place : MapPosition.find origin.snapshot origin.key = [] ∧ it.first = origin.key ∨
    ∃ front entry rest, MapPosition.find origin.snapshot origin.key = front ++ entry :: rest ∧
      it.first = entry.1 ∧
      (moves.countP Move.increments ≠ 0 → it.isEnd = true → rest = [])

variable [Std.TransOrd κ] [Std.LawfulEqOrd κ] {origin : Origin κ α} {moves : List Move}
  {it : WDItr κ α}

theorem Holds.initial (origin : Origin κ α) : Holds origin [] origin.iterator := by
  have first : origin.iterator.first = origin.key := by
    cases origin with
    | ended unset => rfl
    | begun tempMap unset =>
      simp only [Origin.iterator, Origin.key, begin]
      cases tempMap.toList <;> rfl
    | sought tempMap tKey unset =>
      simp only [Origin.iterator, Origin.key, find]
      split
      · rename_i present
        obtain ⟨front, val, rest, split⟩ := MapPosition.split_of_mem present
        rw [MapPosition.find_of_split split]
        rfl
      · rename_i absent
        rw [MapPosition.find_eq_nil.mpr absent]
        rfl
  have map : origin.iterator.tempMap = origin.snapshot := by
    cases origin with
    | ended unset => rfl
    | begun tempMap unset =>
      simp only [Origin.iterator, Origin.snapshot, begin]
      cases tempMap.toList <;> rfl
    | sought tempMap tKey unset =>
      simp only [Origin.iterator, Origin.snapshot, find]
      cases MapPosition.find tempMap tKey <;> rfl
  refine ⟨map, fun _ => first, ?_⟩
  by_cases present : origin.key ∈ origin.snapshot
  · obtain ⟨front, val, rest, split⟩ := MapPosition.split_of_mem present
    right
    exact ⟨[], (origin.key, val), rest, MapPosition.find_of_split split, first, by simp⟩
  · exact .inl ⟨MapPosition.find_eq_nil.mpr present, first⟩

theorem Holds.preIncrement (held : Holds origin moves it) {move : Move}
    (increments : move.increments = true) :
    Holds origin (moves ++ [move]) it.preIncrement := by
  have counted : (moves ++ [move]).countP Move.increments ≠ 0 := by
    simp [List.countP_append, increments]
  rcases held.place with ⟨nothing, first⟩ | ⟨front, entry, rest, split, first, -⟩
  · have found : MapPosition.find it.tempMap it.first = [] := by rw [held.map, first, nothing]
    rw [WDItr.preIncrement, found]
    exact ⟨held.map, fun none => absurd none counted, .inl ⟨nothing, first⟩⟩
  · have found : MapPosition.find it.tempMap it.first = entry :: rest := by
      rw [held.map, first, MapPosition.find_of_later split]
    rw [WDItr.preIncrement, found]
    cases rest with
    | nil =>
      refine ⟨held.map, fun none => absurd none counted, .inr ⟨front, entry, [], split, first, ?_⟩⟩
      exact fun _ _ => rfl
    | cons following rest =>
      refine ⟨held.map, fun none => absurd none counted, .inr ?_⟩
      refine ⟨front ++ [entry], following, rest, ?_, rfl, fun _ atEnd => ?_⟩
      · rw [split]
        simp
      · cases atEnd

theorem Holds.apply (held : Holds origin moves it) (move : Move) :
    Holds origin (moves ++ [move]) (move.apply it) := by
  cases move with
  | pre => exact held.preIncrement rfl
  | post =>
    have copied : Holds origin moves { it with oldSelf := some { it with oldSelf := none } } :=
      ⟨held.map, held.first, held.place⟩
    exact copied.preIncrement rfl
  | old =>
    have same : (moves ++ [Move.old]).countP Move.increments = moves.countP Move.increments := by
      simp [List.countP_append, Move.increments]
    refine ⟨held.map, ?_, ?_⟩
    · rw [same]
      exact held.first
    · rw [same]
      exact held.place

private theorem holds_after (origin : Origin κ α) (moves : List Move) :
    Holds origin moves (origin.after moves) := by
  induction moves using List.reverseRecOn with
  | nil => exact .initial origin
  | append_singleton moves move ih =>
    rw [Origin.after, List.foldl_append]
    exact ih.apply move

omit [Std.TransOrd κ] [Std.LawfulEqOrd κ] in
theorem Holds.leftKey (held : Holds origin moves it) (atEnd : it.isEnd = true) :
    it.first = origin.leftKey moves := by
  rw [Origin.leftKey]
  split
  · rename_i none
    exact held.first none
  · rename_i some
    rcases held.place with ⟨nothing, first⟩ | ⟨front, entry, rest, split, first, last⟩
    · rw [nothing]
      exact first
    · rw [split, last some atEnd, List.getLast?_concat]
      exact first

private theorem designatesNothing_of_first (wdmap : Std.TreeMap κ α) (it : WDItr κ α) :
    DesignatesNothing wdmap it ↔ it.first ∉ wdmap := by
  constructor
  · intro nothing present
    have answered := congrArg Prod.fst nothing.update
    rw [updateItr, update, if_pos present] at answered
    cases answered
  · intro absent
    refine ⟨by rw [updateItr, update, if_neg absent], fun key => ?_⟩
    rw [eraseItr, Std.TreeMap.getElem?_erase]
    split
    · rename_i same
      rw [← Std.LawfulEqOrd.compare_eq_iff_eq.mp same, Std.TreeMap.getElem?_eq_none absent]
    · rfl

variable [DecidableEq κ]

/-- An iterator at the end designates nothing exactly when the key left in it is
absent from the map. -/
theorem endIterator_iff (origin : Origin κ α) (moves : List Move) (wdmap : Std.TreeMap κ α)
    (unset : κ × α) (atEnd : (origin.after moves).equals (endItr unset) = true) :
    DesignatesNothing wdmap (origin.after moves) ↔ origin.leftKey moves ∉ wdmap := by
  rw [equals_endItr] at atEnd
  rw [designatesNothing_of_first, (holds_after origin moves).leftKey atEnd]

theorem absentKey_designatesNothing :
    DesignatesNothing twoEntries ((Origin.sought twoEntries 9 (7, 0)).after []) :=
  (endIterator_iff (.sought twoEntries 9 (7, 0)) [] twoEntries (0, 0) (by decide +kernel)).mpr
    (by decide +kernel)

/-- After a loop over the map the iterator still holds the last key of it. -/
theorem incremented_designates :
    ((Origin.begun twoEntries (0, 0)).after [.post, .post]).equals (endItr (0, 0)) = true ∧
      ¬ DesignatesNothing twoEntries ((Origin.begun twoEntries (0, 0)).after [.post, .post]) := by
  constructor
  · decide +kernel
  · intro nothing
    have answered := congrArg Prod.fst nothing.update
    revert answered
    decide +kernel

end RpcLoop.Shared.MapIterator
