import Mathlib.Data.List.Nodup
import RpcLoop.Foundation.Allocation

/-! Singly linked lists in a heap of nodes. A chain starts at a node, follows
the links and ends at a node without one. -/

namespace RpcLoop.Foundation

universe u

structure Node (α : Type u) where
  val : α
  next : Option Nat

/-- The nodes that are allocated now, by their address. -/
abbrev Heap (α : Type u) := Nat → Option (Node α)

namespace Heap

variable {α : Type u}

/-- The nodes behind a first one, up to the last. -/
def Chain (heap : Heap α) : Nat → List Nat → Prop
  | first, [] => ∃ val, heap first = some ⟨val, none⟩
  | first, second :: rest => (∃ val, heap first = some ⟨val, some second⟩) ∧ Chain heap second rest

/-- The values of a list of nodes. -/
def values (heap : Heap α) (nodes : List Nat) : List α :=
  nodes.filterMap fun node => (heap node).map Node.val

variable {heap other : Heap α} {first last new : Nat} {nodes : List Nat} {node : Node α}

theorem Chain.start (chain : heap.Chain first nodes) :
    ∃ node, heap first = some node ∧ node.next = nodes.head? := by
  cases nodes with
  | nil =>
    obtain ⟨val, found⟩ := chain
    exact ⟨_, found, rfl⟩
  | cons second rest =>
    obtain ⟨⟨val, found⟩, _⟩ := chain
    exact ⟨_, found, rfl⟩

theorem Chain.allocated (chain : heap.Chain first nodes) :
    ∀ p ∈ first :: nodes, ∃ node, heap p = some node := by
  induction nodes generalizing first with
  | nil =>
    intro p member
    rw [List.mem_singleton.mp member]
    obtain ⟨val, found⟩ := chain
    exact ⟨_, found⟩
  | cons second rest ih =>
    obtain ⟨⟨val, found⟩, later⟩ := chain
    intro p member
    rcases List.mem_cons.mp member with rfl | behind
    · exact ⟨_, found⟩
    · exact ih later p behind

/-- A chain depends on its own nodes only. -/
theorem Chain.frame (chain : heap.Chain first nodes)
    (same : ∀ p ∈ first :: nodes, other p = heap p) : other.Chain first nodes := by
  induction nodes generalizing first with
  | nil =>
    obtain ⟨val, found⟩ := chain
    exact ⟨val, (same first List.mem_cons_self).trans found⟩
  | cons second rest ih =>
    obtain ⟨⟨val, found⟩, later⟩ := chain
    refine ⟨⟨val, (same first List.mem_cons_self).trans found⟩, ih later ?_⟩
    exact fun p member => same p (List.mem_cons_of_mem _ member)

theorem values_frame (same : ∀ p ∈ nodes, other p = heap p) :
    other.values nodes = heap.values nodes := by
  apply List.filterMap_congr
  intro p member
  rw [same p member]

theorem values_append (heap : Heap α) (early late : List Nat) :
    heap.values (early ++ late) = heap.values early ++ heap.values late :=
  List.filterMap_append

/-- An allocated list of nodes has as many values. -/
theorem length_values (all : ∀ p ∈ nodes, ∃ node, heap p = some node) :
    (heap.values nodes).length = nodes.length := by
  induction nodes with
  | nil => rfl
  | cons p rest ih =>
    obtain ⟨node, found⟩ := all p List.mem_cons_self
    have later := ih fun q member => all q (List.mem_cons_of_mem _ member)
    rw [values] at later ⊢
    simp [found, later]

/-- Linking a node behind the last one makes the chain one longer. -/
theorem Chain.link (chain : heap.Chain first nodes) (distinct : (first :: nodes).Nodup)
    (ends : (first :: nodes).getLast? = some last) (found : heap last = some node)
    (apart : new ∉ first :: nodes) {val : α} (lone : heap new = some ⟨val, none⟩) :
    Chain (Function.update heap last (some { node with next := some new })) first
      (nodes ++ [new]) := by
  induction nodes generalizing first with
  | nil =>
    have same : first = last := by simpa using ends
    subst same
    have different : new ≠ first := by simpa using apart
    refine ⟨⟨node.val, by simp⟩, val, ?_⟩
    rw [Function.update_of_ne different, lone]
  | cons second rest ih =>
    obtain ⟨⟨value, start⟩, later⟩ := chain
    have parts := List.nodup_cons.mp distinct
    have ends : (second :: rest).getLast? = some last := by simpa using ends
    have different : first ≠ last := by
      rintro rfl
      exact parts.1 (List.mem_of_getLast? ends)
    refine ⟨⟨value, ?_⟩, ih later parts.2 ends ?_⟩
    · rw [Function.update_of_ne different, start]
    · exact fun member => apart (List.mem_cons_of_mem _ member)

theorem values_link (found : heap last = some node) (nodes : List Nat) (next : Option Nat) :
    values (Function.update heap last (some { node with next := next })) nodes =
      heap.values nodes := by
  apply List.filterMap_congr
  intro p member
  by_cases same : p = last
  · subst same
    simp [found]
  · rw [Function.update_of_ne same]

/-! ### Deletion -/

/-- Deleting nodes along their links, each behind the reading of its link. There is
no result where the fuel ends or a node is followed that is not allocated. -/
def free : Nat → Heap α → Nat → Option (Heap α)
  | 0, _, _ => none
  | fuel + 1, heap, p => do
    let node ← heap p
    match node.next with
    | none => some (Function.update heap p none)
    | some next => free fuel (Function.update heap p none) next

/-- A chain is deleted whole, and nothing else is. -/
theorem Chain.free {fuel : Nat} (chain : heap.Chain first nodes)
    (distinct : (first :: nodes).Nodup) (enough : nodes.length < fuel) :
    heap.free fuel first = some fun p => if p ∈ first :: nodes then none else heap p := by
  induction nodes generalizing heap first fuel with
  | nil =>
    obtain ⟨fuel, rfl⟩ := Nat.exists_eq_add_one_of_ne_zero (Nat.ne_of_gt enough)
    obtain ⟨val, found⟩ := chain
    simp only [Heap.free, found, Option.bind_eq_bind, Option.bind_some]
    congr 1
    funext p
    simp [Function.update_apply]
  | cons second rest ih =>
    obtain ⟨fuel, rfl⟩ := Nat.exists_eq_add_one_of_ne_zero (Nat.ne_zero_of_lt enough)
    obtain ⟨⟨val, found⟩, later⟩ := chain
    obtain ⟨apart, others⟩ := List.nodup_cons.mp distinct
    have kept : Chain (Function.update heap first none) second rest :=
      later.frame fun p member =>
        Function.update_of_ne (fun same : p = first => apart (same ▸ member)) _ _
    simp only [Heap.free, found, Option.bind_eq_bind, Option.bind_some]
    rw [ih kept others (Nat.lt_of_succ_lt_succ enough)]
    congr 1
    funext p
    by_cases same : p = first
    · simp [same]
    · simp [same]

end Heap

end RpcLoop.Foundation
