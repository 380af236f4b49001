import RpcLoop.Shared.LinkedQueue

/-! The nodes behind `head_` while pushes and pops are half done. The invariant
names the dummy node and the nodes linked behind it; what a statement can follow
or count is read off from it. -/

namespace RpcLoop.Shared

open Foundation

universe u

variable {α : Type u}

/-- The node a call has prepared, and its value once that is set. -/
def PushCall.cell : PushCall α → Nat × Option α
  | .created node _ => (node, none)
  | .valued node val => (node, some val)
  | .ready node val => (node, some val)

/-- The node that is still to be linked. -/
def PushSection.cell : PushSection α → Option (Nat × Option α)
  | .locked node val => some (node, some val)
  | .counted node val => some (node, some val)
  | _ => none

/-- Nodes of pushes that are not linked yet: different ones, apart from the
chain, and without a link. -/
structure Prepared (heap : Heap α) (chain : List Nat) (cells : List (Nat × Option α)) : Prop where
  distinct : (cells.map Prod.fst).Nodup
  apart : ∀ cell ∈ cells, cell.1 ∉ chain
  lone : ∀ cell ∈ cells, ∃ node, heap cell.1 = some node ∧ node.next = none ∧
    ∀ val, cell.2 = some val → node.val = val

namespace Prepared

variable {heap other : Heap α} {chain : List Nat} {cells : List (Nat × Option α)}

theorem frame (prepared : Prepared heap chain cells)
    (same : ∀ cell ∈ cells, other cell.1 = heap cell.1) : Prepared other chain cells where
  distinct := prepared.distinct
  apart := prepared.apart
  lone cell member := by
    rw [same cell member]
    exact prepared.lone cell member

theorem perm {more : List (Nat × Option α)} (prepared : Prepared heap chain cells)
    (same : cells.Perm more) : Prepared heap chain more where
  distinct := (same.map Prod.fst).nodup prepared.distinct
  apart cell member := prepared.apart cell (same.mem_iff.mpr member)
  lone cell member := prepared.lone cell (same.mem_iff.mpr member)

private theorem shrink {less : List Nat} (prepared : Prepared heap chain cells)
    (sub : ∀ p ∈ less, p ∈ chain) : Prepared heap less cells where
  distinct := prepared.distinct
  apart cell member inside := prepared.apart cell member (sub _ inside)
  lone := prepared.lone

theorem others {first : Nat × Option α} {rest : List (Nat × Option α)}
    (prepared : Prepared heap chain (first :: rest)) : ∀ cell ∈ rest, cell.1 ≠ first.1 := by
  intro cell member same
  have distinct := prepared.distinct
  rw [List.map_cons, List.nodup_cons] at distinct
  exact distinct.1 (same ▸ List.mem_map_of_mem member)

theorem tail {first : Nat × Option α} {rest : List (Nat × Option α)}
    (prepared : Prepared heap chain (first :: rest)) : Prepared heap chain rest where
  distinct := by
    have distinct := prepared.distinct
    rw [List.map_cons, List.nodup_cons] at distinct
    exact distinct.2
  apart cell member := prepared.apart cell (List.mem_cons_of_mem _ member)
  lone cell member := prepared.lone cell (List.mem_cons_of_mem _ member)

private theorem write {cell after : Nat × Option α} {rest : List (Nat × Option α)} {node : Node α}
    (prepared : Prepared heap chain (cell :: rest)) (own : after.1 = cell.1)
    (alone : node.next = none) (value : ∀ val, after.2 = some val → node.val = val) :
    Prepared (Function.update heap cell.1 (some node)) chain (after :: rest) where
  distinct := by
    have distinct := prepared.distinct
    rw [List.map_cons] at distinct ⊢
    rw [own]
    exact distinct
  apart other member := by
    rcases List.mem_cons.mp member with rfl | old
    · exact own ▸ prepared.apart cell List.mem_cons_self
    · exact prepared.apart other (List.mem_cons_of_mem _ old)
  lone other member := by
    rcases List.mem_cons.mp member with rfl | old
    · exact ⟨node, own ▸ Function.update_self _ _ _, alone, value⟩
    · rw [Function.update_of_ne (prepared.others other old)]
      exact prepared.lone other (List.mem_cons_of_mem _ old)

private theorem linked {first : Nat × Option α} {rest : List (Nat × Option α)}
    (prepared : Prepared heap chain (first :: rest)) : Prepared heap (chain ++ [first.1]) rest where
  distinct := prepared.tail.distinct
  apart cell member inside := by
    rcases List.mem_append.mp inside with old | new
    · exact prepared.tail.apart cell member old
    · exact prepared.others cell member (List.mem_singleton.mp new)
  lone := prepared.tail.lone

private theorem create {p : Nat} {node : Node α} (prepared : Prepared heap chain cells)
    (fresh : heap p = none) (apart : p ∉ chain) (alone : node.next = none) :
    Prepared (Function.update heap p (some node)) chain ((p, none) :: cells) := by
  have different : ∀ cell ∈ cells, cell.1 ≠ p := by
    rintro cell member rfl
    obtain ⟨node, found, _⟩ := prepared.lone cell member
    cases fresh.symm.trans found
  refine ⟨?_, ?_, ?_⟩
  · rw [List.map_cons, List.nodup_cons]
    refine ⟨?_, prepared.distinct⟩
    intro member
    obtain ⟨cell, known, same⟩ := List.mem_map.mp member
    exact different cell known same
  · intro cell member
    rcases List.mem_cons.mp member with rfl | old
    · exact apart
    · exact prepared.apart cell old
  · intro cell member
    rcases List.mem_cons.mp member with rfl | old
    · exact ⟨node, Function.update_self _ _ _, alone, fun _ none => by cases none⟩
    · rw [Function.update_of_ne (different cell old)]
      exact prepared.lone cell old

end Prepared

/-- The value of a push between taking its lock and linking its node. -/
def PushSection.waiting : Option (PushSection α) → List α
  | some (.locked _ val) => [val]
  | some (.counted _ val) => [val]
  | _ => []

/-- A push has taken its lock and not counted its value. -/
def PushSection.uncounted : Option (PushSection α) → Nat
  | some (.locked _ _) => 1
  | _ => 0

/-- A push stands between `++size_` and `tail_->next = node`. -/
def PushSection.ahead : Option (PushSection α) → Nat
  | some (.counted _ _) => 1
  | _ => 0

/-- Where `tail_` is, or the pointer that will be assigned to it. -/
def PushSection.last (tail : Option Nat) : Option (PushSection α) → Option Nat
  | some (.linked node) => some node
  | _ => tail

/-- A pop stands between `--size_` and `delete node`. -/
def PopSection.behind : Option PopSection → Nat
  | some .counted => 1
  | some (.read _) => 1
  | _ => 0

/-- The value a pop is about to return, once its node is the dummy. -/
def PopSection.leaving (heap : Heap α) (front : Nat) : Option PopSection → List α
  | some (.deleted _) => heap.values [front]
  | some .moved => heap.values [front]
  | _ => []

/-- Where `head_` is, and what the pop that holds `t_lock_` has seen behind it. -/
def PopSection.Front (head : Option Nat) (front : Nat) (nodes : List Nat) :
    Option PopSection → Prop
  | some .tested => head = some front ∧ nodes ≠ []
  | some .counted => head = some front ∧ nodes ≠ []
  | some (.read tmp) => head = some front ∧ nodes ≠ [] ∧ tmp = nodes.head?
  | some (.deleted tmp) => tmp = some front
  | _ => head = some front

/-- A new last node changes nothing for a pop that has found one behind the dummy. -/
theorem PopSection.Front.append {head : Option Nat} {front : Nat} {nodes : List Nat}
    {popping : Option PopSection} (first : Front head front nodes popping) (p : Nat) :
    Front head front (nodes ++ [p]) popping := by
  cases popping with
  | none => exact first
  | some stage =>
    cases stage with
    | tested => exact ⟨first.1, List.append_ne_nil_of_left_ne_nil first.2 _⟩
    | counted => exact ⟨first.1, List.append_ne_nil_of_left_ne_nil first.2 _⟩
    | read tmp =>
      obtain ⟨head, nonempty, same⟩ := first
      refine ⟨head, List.append_ne_nil_of_left_ne_nil nonempty _, ?_⟩
      rw [same, List.head?_append_of_ne_nil _ nonempty]
    | _ => exact first

open PushSection PopSection

namespace LinkedQueue

/-- The nodes of all pushes that are not linked yet. -/
def cells (q : LinkedQueue α) : List (Nat × Option α) :=
  (q.pushing.bind PushSection.cell).toList ++ q.starting.map PushCall.cell

/-- The dummy node and the nodes linked behind it. -/
structure Shape (q : LinkedQueue α) (front : Nat) (nodes : List Nat) : Prop where
  chain : q.heap.Chain front nodes
  distinct : (front :: nodes).Nodup
  fresh : ∀ p node, q.heap p = some node → p < q.allocated
  prepared : Prepared q.heap (front :: nodes) q.cells
  last : (front :: nodes).getLast? = PushSection.last q.tail q.pushing
  first : Front q.head front nodes q.popping
  values : q.entered =
    q.returned ++ leaving q.heap front q.popping ++ q.heap.values nodes ++ waiting q.pushing
  size : q.size = Int32.ofNat (nodes.length + ahead q.pushing - behind q.popping)
  safe : q.fault ≠ some .dangling

variable {q next : LinkedQueue α} {front : Nat} {nodes : List Nat}

theorem deref_of_found {p : Nat} {node : Node α} {use : Nat → Node α → LinkedQueue α}
    (found : q.heap p = some node) : q.deref (some p) use = use p node := by
  simp only [deref, found]

theorem heap_store_of_ne {p other : Nat} (different : other ≠ p) (node : Option (Node α)) :
    (q.store p node).heap other = q.heap other := Function.update_of_ne different _ _

private theorem leaving_frame {heap other : Heap α} {popping : Option PopSection}
    (same : other front = heap front) :
    leaving other front popping = leaving heap front popping := by
  have values : other.values [front] = heap.values [front] :=
    Heap.values_frame fun p member => by rw [List.mem_singleton.mp member, same]
  unfold leaving
  rw [values]

private theorem leaving_link {heap : Heap α} {last : Nat} {node : Node α}
    (found : heap last = some node)
    {popping : Option PopSection} {next : Option Nat} :
    leaving (Function.update heap last (some { node with next := next })) front popping =
      leaving heap front popping := by
  unfold leaving
  rw [Heap.values_link found]

theorem Shape.unallocated (shape : Shape q front nodes) : q.heap q.allocated = none := by
  cases found : q.heap q.allocated with
  | none => rfl
  | some node => exact absurd (shape.fresh _ node found) (Nat.lt_irrefl _)

theorem Shape.initial [Inhabited α] : Shape (new : LinkedQueue α) 0 [] where
  chain := ⟨default, by simp [new]⟩
  distinct := List.nodup_singleton 0
  fresh p node found := by
    by_cases same : p = 0
    · rw [same]
      exact Nat.zero_lt_one
    · simp [new, same] at found
  prepared := ⟨List.nodup_nil, fun _ member => (by cases member), fun _ member => by cases member⟩
  last := rfl
  first := rfl
  values := rfl
  size := rfl
  safe := by simp [new]

/-! ### Before `h_lock_` -/

/-- A statement on nodes outside the chain. -/
theorem Shape.prepare (shape : Shape q front nodes) (heap : Heap α) (allocated : Nat)
    (starting : List (PushCall α)) (same : ∀ p ∈ front :: nodes, heap p = q.heap p)
    (fresh : ∀ p node, heap p = some node → p < allocated)
    (prepared : Prepared heap (front :: nodes)
      ((q.pushing.bind PushSection.cell).toList ++ starting.map PushCall.cell)) :
    Shape { q with heap := heap, allocated := allocated, starting := starting } front nodes where
  chain := shape.chain.frame same
  distinct := shape.distinct
  fresh := fresh
  prepared := prepared
  last := shape.last
  first := shape.first
  values := by
    have rest : heap.values nodes = q.heap.values nodes :=
      Heap.values_frame fun p member => same p (List.mem_cons_of_mem _ member)
    simp only [leaving_frame (same front List.mem_cons_self), rest]
    exact shape.values
  size := shape.size
  safe := shape.safe

theorem Shape.newNode [Inhabited α] (shape : Shape q front nodes) (val : α) :
    Shape (q.newNode val) front nodes := by
  have apart : q.allocated ∉ front :: nodes := by
    intro member
    obtain ⟨node, found⟩ := shape.chain.allocated _ member
    cases shape.unallocated.symm.trans found
  refine shape.prepare _ _ _ ?_ ?_ ?_
  · rintro p member
    exact heap_store_of_ne (fun same : p = q.allocated => apart (same ▸ member)) _
  · intro p node found
    by_cases same : p = q.allocated
    · rw [same]
      exact Nat.lt_succ_self _
    · rw [heap_store_of_ne same] at found
      exact Nat.lt_succ_of_lt (shape.fresh p node found)
  · have alone : ({ val := default, next := none } : Node α).next = none := rfl
    have created := shape.prepared.create shape.unallocated apart alone
    refine created.perm ?_
    rw [List.map_append, ← List.append_assoc]
    exact (List.perm_append_singleton _ _).symm

/-- The statements between the allocation and the lock write to the caller's own node. -/
theorem Shape.assign (shape : Shape q front nodes) {caller : Nat} {call : PushCall α}
    (stage : q.starting[caller]? = some call) (after : PushCall α) (new : Node α)
    (own : after.cell.1 = call.cell.1) {node : Node α} (found : q.heap call.cell.1 = some node)
    (alone : new.next = none) (value : ∀ val, after.cell.2 = some val → new.val = val) :
    Shape { q.store call.cell.1 (some new) with starting := q.starting.set caller after }
      front nodes := by
  obtain ⟨before, behind, split, replaced⟩ := split_of_set stage
  have cells : ∀ other : PushCall α, ((q.pushing.bind PushSection.cell).toList ++
      (before ++ other :: behind).map PushCall.cell).Perm (other.cell ::
        ((q.pushing.bind PushSection.cell).toList ++ (before ++ behind).map PushCall.cell)) := by
    intro other
    simp only [List.map_append, List.map_cons, ← List.append_assoc]
    exact List.perm_middle
  have prepared := shape.prepared
  rw [LinkedQueue.cells, split] at prepared
  have first := prepared.perm (cells call)
  have apart := first.apart _ List.mem_cons_self
  refine shape.prepare _ _ _ ?_ ?_ ?_
  · intro p member
    exact heap_store_of_ne (fun same : p = call.cell.1 => apart (same ▸ member)) _
  · intro p other present
    by_cases same : p = call.cell.1
    · exact shape.fresh p node (same ▸ found)
    · rw [heap_store_of_ne same] at present
      exact shape.fresh p other present
  · rw [replaced after]
    refine Prepared.perm ?_ (cells after).symm
    exact first.write own alone value

/-! ### Behind `h_lock_` -/

theorem Shape.lockPush (shape : Shape q front nodes) {caller p : Nat} {val : α}
    (stage : q.starting[caller]? = some (.ready p val)) (free : q.pushing = none) :
    Shape { q with
      starting := q.starting.eraseIdx caller
      pushing := some (.locked p val)
      entered := q.entered ++ [val] } front nodes := by
  obtain ⟨before, after, split, _, removed⟩ := split_of_getElem? stage
  obtain ⟨heap, allocated, head, tail, size, starting, pushing, popping, fault, entered,
    returned⟩ := q
  cases free
  have cells : (starting.map PushCall.cell).Perm
      ((p, some val) :: (starting.eraseIdx caller).map PushCall.cell) := by
    rw [removed, show starting = before ++ .ready p val :: after from split, List.map_append,
      List.map_append]
    exact List.perm_middle
  exact { shape with
    prepared := shape.prepared.perm cells
    values := by
      have values := shape.values
      simp only [waiting, List.append_nil] at values ⊢
      rw [values] }

/-- A pop has counted off at most one linked node. -/
theorem Shape.behind_le (shape : Shape q front nodes) : behind q.popping ≤ nodes.length := by
  have first := shape.first
  unfold behind
  unfold Front at first
  split
  · rename_i stage
    rw [stage] at first
    exact List.length_pos_of_ne_nil first.2
  · rename_i stage
    rw [stage] at first
    exact List.length_pos_of_ne_nil first.2.1
  · exact Nat.zero_le _

theorem Shape.count (shape : Shape q front nodes) {p : Nat} {val : α}
    (stage : q.pushing = some (.locked p val)) :
    Shape { q with size := q.size + 1, pushing := some (.counted p val) } front nodes := by
  have few := shape.behind_le
  obtain ⟨heap, allocated, head, tail, size, starting, pushing, popping, fault, entered,
    returned⟩ := q
  cases stage
  exact { shape with
    size := by
      have more : nodes.length + 1 - behind popping = nodes.length + 0 - behind popping + 1 := by
        simp only at few
        omega
      have counts := shape.size
      simp only [ahead] at counts ⊢
      rw [counts, more, Int32.ofNat_add]
      rfl }

/-- `tail_->next = node`: the last node is followed, which no pop has deleted. -/
theorem Shape.link (shape : Shape q front nodes) {p : Nat} {val : α}
    (stage : q.pushing = some (.counted p val)) :
    ∃ last node, q.tail = some last ∧ q.heap last = some node ∧
      Shape { q.store last (some { node with next := some p }) with
        pushing := some (.linked p) } front (nodes ++ [p]) := by
  have few := shape.behind_le
  obtain ⟨heap, allocated, head, tail, size, starting, pushing, popping, fault, entered,
    returned⟩ := q
  cases stage
  have ends := shape.last
  cases tail with
  | none => simp [PushSection.last] at ends
  | some last =>
    obtain ⟨node, found⟩ := shape.chain.allocated last (List.mem_of_getLast? ends)
    have prepared : Prepared heap (front :: nodes)
      ((p, some val) :: starting.map PushCall.cell) := shape.prepared
    have apart := prepared.apart _ List.mem_cons_self
    obtain ⟨own, lone, alone, value⟩ := prepared.lone _ List.mem_cons_self
    have lone : heap p = some ⟨val, none⟩ := by
      rw [lone, ← alone, ← value val rfl]
    refine ⟨last, node, rfl, found, ?_⟩
    exact {
      chain := shape.chain.link shape.distinct ends found apart lone
      distinct := by
        rw [← List.cons_append, List.nodup_append]
        refine ⟨shape.distinct, List.nodup_singleton p, ?_⟩
        rintro other member _ new rfl
        exact apart (List.mem_singleton.mp new ▸ member)
      fresh := by
        intro other new present
        by_cases same : other = last
        · exact shape.fresh other node (same ▸ found)
        · rw [heap_store_of_ne same] at present
          exact shape.fresh other new present
      prepared := by
        refine prepared.linked.frame fun cell member => ?_
        refine heap_store_of_ne (fun same : cell.1 = last => ?_) _
        exact prepared.tail.apart cell member (same ▸ List.mem_of_getLast? ends)
      last := by
        rw [← List.cons_append, List.getLast?_concat]
        rfl
      first := shape.first.append p
      values := by
        have values := shape.values
        have own : heap.values [p] = [val] := by simp [Heap.values, lone]
        simp only [waiting, store, leaving_link found, Heap.values_append, Heap.values_link found,
          own, List.append_nil] at values ⊢
        rw [values, List.append_assoc]
      size := by
        have counts := shape.size
        simp only [ahead, List.length_append, List.length_singleton] at counts ⊢
        exact counts
      safe := shape.safe }

theorem Shape.moveTail (shape : Shape q front nodes) {p : Nat}
    (stage : q.pushing = some (.linked p)) :
    Shape { q with tail := some p, pushing := some .moved } front nodes := by
  obtain ⟨heap, allocated, head, tail, size, starting, pushing, popping, fault, entered,
    returned⟩ := q
  cases stage
  exact { shape with }

theorem Shape.unlockPush (shape : Shape q front nodes) (stage : q.pushing = some .moved) :
    Shape { q with pushing := none } front nodes := by
  obtain ⟨heap, allocated, head, tail, size, starting, pushing, popping, fault, entered,
    returned⟩ := q
  cases stage
  exact { shape with }

/-! ### Behind `t_lock_` -/

theorem Shape.lockPop (shape : Shape q front nodes) (free : q.popping = none) :
    Shape { q with popping := some .locked } front nodes := by
  obtain ⟨heap, allocated, head, tail, size, starting, pushing, popping, fault, entered,
    returned⟩ := q
  cases free
  exact { shape with }

/-- A pop that has passed its assertion has found a node. -/
theorem Shape.test (shape : Shape q front nodes) (stage : q.popping = some .locked)
    (nonempty : nodes ≠ []) : Shape { q with popping := some .tested } front nodes := by
  obtain ⟨heap, allocated, head, tail, size, starting, pushing, popping, fault, entered,
    returned⟩ := q
  cases stage
  exact { shape with first := ⟨shape.first, nonempty⟩ }

theorem Shape.assertion (shape : Shape q front nodes) :
    Shape { q with fault := some .assertion } front nodes :=
  { shape with safe := by simp }

theorem Shape.uncount (shape : Shape q front nodes) (stage : q.popping = some .tested) :
    Shape { q with size := q.size - 1, popping := some .counted } front nodes := by
  obtain ⟨heap, allocated, head, tail, size, starting, pushing, popping, fault, entered,
    returned⟩ := q
  cases stage
  have nonempty := List.length_pos_of_ne_nil shape.first.2
  exact { shape with
    size := by
      have counts := shape.size
      simp only [behind, Nat.sub_zero] at counts ⊢
      rw [counts, Int32.ofNat_sub _ _ (by omega)]
      rfl }

theorem Shape.read (shape : Shape q front nodes) (stage : q.popping = some .counted) :
    Shape { q with popping := some (.read nodes.head?) } front nodes := by
  obtain ⟨heap, allocated, head, tail, size, starting, pushing, popping, fault, entered,
    returned⟩ := q
  cases stage
  exact { shape with first := ⟨shape.first.1, shape.first.2, rfl⟩ }

/-- `delete node`: the next node becomes the dummy, its value is still to be returned. -/
theorem Shape.delete (shape : Shape q front nodes) {tmp : Option Nat}
    (stage : q.popping = some (.read tmp)) :
    ∃ second rest, Shape { q.store front none with popping := some (.deleted tmp) } second
      rest := by
  obtain ⟨heap, allocated, head, tail, size, starting, pushing, popping, fault, entered,
    returned⟩ := q
  cases stage
  obtain ⟨start, nonempty, same⟩ := shape.first
  cases nodes with
  | nil => exact absurd rfl nonempty
  | cons second rest =>
    have apart := (List.nodup_cons.mp shape.distinct).1
    have kept : ∀ p ∈ second :: rest, Function.update heap front none p = heap p :=
      fun p member => Function.update_of_ne (fun same : p = front => apart (same ▸ member)) _ _
    refine ⟨second, rest, ?_⟩
    exact {
      chain := shape.chain.2.frame kept
      distinct := (List.nodup_cons.mp shape.distinct).2
      fresh := by
        intro p node found
        by_cases same : p = front
        · simp [same, store] at found
        · rw [heap_store_of_ne same] at found
          exact shape.fresh p node found
      prepared := by
        refine (shape.prepared.shrink fun p member => List.mem_cons_of_mem _ member).frame ?_
        refine fun cell member => heap_store_of_ne (fun same : cell.1 = front => ?_) _
        exact shape.prepared.apart cell member (same ▸ List.mem_cons_self)
      last := by
        have last := shape.last
        rw [List.getLast?_cons_cons] at last
        exact last
      first := same
      values := by
        have values := shape.values
        have left : Heap.values (Function.update heap front none) [second] = heap.values [second] :=
          Heap.values_frame fun p member =>
            kept p (by rw [List.mem_singleton.mp member]; exact List.mem_cons_self)
        have tail : Heap.values (Function.update heap front none) rest = heap.values rest :=
          Heap.values_frame fun p member => kept p (List.mem_cons_of_mem _ member)
        have split : heap.values (second :: rest) = heap.values [second] ++ heap.values rest :=
          Heap.values_append heap [second] rest
        simp only [leaving, store, left, tail, split, List.append_nil] at values ⊢
        rw [values]
        simp only [List.append_assoc]
      size := by
        have counts := shape.size
        simp only [behind, store, List.length_cons, Nat.sub_zero] at counts ⊢
        rw [counts]
        congr 1
        omega
      safe := shape.safe }

theorem Shape.moveHead (shape : Shape q front nodes) {tmp : Option Nat}
    (stage : q.popping = some (.deleted tmp)) :
    Shape { q with head := tmp, popping := some .moved } front nodes := by
  obtain ⟨heap, allocated, head, tail, size, starting, pushing, popping, fault, entered,
    returned⟩ := q
  cases stage
  exact { shape with }

/-- `return head_->val`. -/
theorem Shape.return (shape : Shape q front nodes) (stage : q.popping = some .moved)
    {node : Node α} (found : q.heap front = some node) :
    Shape { q with returned := q.returned ++ [node.val], popping := some .valued } front nodes := by
  obtain ⟨heap, allocated, head, tail, size, starting, pushing, popping, fault, entered,
    returned⟩ := q
  cases stage
  have own : heap.values [front] = [node.val] := by
    have found : heap front = some node := found
    simp [Heap.values, found]
  exact { shape with
    values := by
      have values := shape.values
      simp only [leaving, own, List.append_nil] at values ⊢
      exact values }

theorem Shape.unlockPop (shape : Shape q front nodes) (stage : q.popping = some .valued) :
    Shape { q with popping := none } front nodes := by
  obtain ⟨heap, allocated, head, tail, size, starting, pushing, popping, fault, entered,
    returned⟩ := q
  cases stage
  exact { shape with }

/-! ### Statements -/

/-- The invariant of all interleavings. -/
def Shaped (q : LinkedQueue α) : Prop := ∃ front nodes, q.Shape front nodes

theorem cell_mem {call : PushCall α} {caller : Nat} (stage : q.starting[caller]? = some call) :
    call.cell ∈ q.cells :=
  List.mem_append_right _ (List.mem_map_of_mem (List.mem_of_getElem? stage))

theorem Shape.setVal_step (shape : Shape q front nodes) {caller : Nat}
    (taken : q.setVal caller = some next) : Shape next front nodes := by
  unfold setVal at taken
  split at taken
  · rename_i p val stage
    obtain ⟨node, found, alone, _⟩ := shape.prepared.lone _ (cell_mem stage)
    have found : q.heap p = some node := found
    rw [deref_of_found found] at taken
    cases taken
    exact shape.assign stage (.valued p val) { node with val := val } rfl found alone
      fun other same => Option.some.inj same
  · cases taken

theorem Shape.setNext_step (shape : Shape q front nodes) {caller : Nat}
    (taken : q.setNext caller = some next) : Shape next front nodes := by
  unfold setNext at taken
  split at taken
  · rename_i p val stage
    obtain ⟨node, found, _, value⟩ := shape.prepared.lone _ (cell_mem stage)
    have found : q.heap p = some node := found
    rw [deref_of_found found] at taken
    cases taken
    exact shape.assign stage (.ready p val) { node with next := none } rfl found rfl value
  · cases taken

theorem Shape.lockPush_step (shape : Shape q front nodes) {caller : Nat}
    (taken : q.lockPush caller = some next) : Shape next front nodes := by
  unfold LinkedQueue.lockPush at taken
  split at taken
  · rename_i p val stage free
    cases taken
    exact shape.lockPush stage free
  · cases taken

theorem Shape.push_step (shape : Shape q front nodes) (taken : q.push = some next) :
    Shaped next := by
  unfold push at taken
  split at taken
  · cases taken
  · rename_i p val stage
    cases taken
    exact ⟨front, nodes, shape.count stage⟩
  · rename_i p val stage
    obtain ⟨last, node, ends, found, linked⟩ := shape.link stage
    rw [ends, deref_of_found found] at taken
    cases taken
    exact ⟨front, nodes ++ [p], linked⟩
  · rename_i p stage
    cases taken
    exact ⟨front, nodes, shape.moveTail stage⟩
  · rename_i stage
    cases taken
    exact ⟨front, nodes, shape.unlockPush stage⟩

/-- `head_` points to the dummy wherever it is followed. -/
theorem Shape.deref_head (shape : Shape q front nodes) (start : q.head = some front)
    (use : Nat → Node α → LinkedQueue α) :
    ∃ node, q.heap front = some node ∧ node.next = nodes.head? ∧
      q.deref q.head use = use front node := by
  obtain ⟨node, found, next⟩ := shape.chain.start
  exact ⟨node, found, next, by rw [start, deref_of_found found]⟩

theorem Shape.pop_step (shape : Shape q front nodes) (taken : q.pop = some next) :
    Shaped next := by
  have first := shape.first
  unfold pop at taken
  split at taken
  · cases taken
  · rename_i stage
    rw [stage] at first
    obtain ⟨node, found, behind, same⟩ := shape.deref_head first _
    rw [same] at taken
    cases taken
    split
    · exact ⟨front, nodes, shape.assertion⟩
    · rename_i more
      refine ⟨front, nodes, shape.test stage ?_⟩
      rintro rfl
      exact more behind
  · rename_i stage
    cases taken
    exact ⟨front, nodes, shape.uncount stage⟩
  · rename_i stage
    rw [stage] at first
    obtain ⟨node, found, behind, same⟩ := shape.deref_head first.1 _
    rw [same, behind] at taken
    cases taken
    exact ⟨front, nodes, shape.read stage⟩
  · rename_i tmp stage
    rw [stage] at first
    obtain ⟨node, found, behind, same⟩ := shape.deref_head first.1 _
    rw [same] at taken
    cases taken
    exact shape.delete stage
  · rename_i tmp stage
    cases taken
    exact ⟨front, nodes, shape.moveHead stage⟩
  · rename_i stage
    rw [stage] at first
    obtain ⟨node, found, behind, same⟩ := shape.deref_head first _
    rw [same] at taken
    cases taken
    exact ⟨front, nodes, shape.return stage found⟩
  · rename_i stage
    cases taken
    exact ⟨front, nodes, shape.unlockPop stage⟩

/-- Every statement of every call keeps the shape. -/
theorem Shaped.step [Inhabited α] {event : Event α} (shaped : Shaped q)
    (taken : machine.step q event = some next) : Shaped next := by
  obtain ⟨front, nodes, shape⟩ := shaped
  simp only [machine, LinkedQueue.step] at taken
  split at taken
  · cases taken
  · cases event with
    | newNode val =>
      cases taken
      exact ⟨front, nodes, shape.newNode val⟩
    | setVal caller => exact ⟨front, nodes, shape.setVal_step taken⟩
    | setNext caller => exact ⟨front, nodes, shape.setNext_step taken⟩
    | lockPush caller => exact ⟨front, nodes, shape.lockPush_step taken⟩
    | push => exact shape.push_step taken
    | lockPop =>
      simp only [LinkedQueue.lockPop] at taken
      split at taken
      · rename_i free
        cases taken
        exact ⟨front, nodes, shape.lockPop free⟩
      · cases taken
    | pop => exact shape.pop_step taken

end LinkedQueue

end RpcLoop.Shared
