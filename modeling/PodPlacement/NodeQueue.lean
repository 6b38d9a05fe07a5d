import PodPlacement.Ledger

/-! # The node queue

A queue of nodes, held by their positions, that hands out the node to be tried next. Nodes that order
alike come in the order of their positions, so the order of the queue is total. A node must not change
while it is queued.

The queue is a heap that is popped in a way of its own: the entry that takes the place of the root goes
down only as long as one of its children orders strictly before it (`settle`), and of two children that
order alike the left one comes up. -/

namespace PodPlacement

/-- The nodes of a simulation. -/
abbrev Nodes (n : Nat) := Vector Ledger n

/-- The node at a position. A position is always in range, so nothing needs to be shown to take it. -/
instance {n : Nat} : GetElem (Nodes n) (Fin n) Ledger fun _ _ => True where
  getElem nodes i _ := nodes.get i

/-- A queue of positions of nodes. -/
abbrev NodeQueue (n : Nat) := Heap (Fin n)

namespace NodeQueue

variable {n : Nat}

/-! ### Order -/

/-- The order of a queue: that of the nodes, then that of their positions. -/
def order (nodes : Nodes n) (cmp : Ledger → Ledger → Ordering) : Fin n → Fin n → Ordering :=
  compareLex (fun i j => cmp nodes[i] nodes[j]) compare

/-- The order in which the anticipatory search tries nodes. -/
def searchOrder (nodes : Nodes n) : Fin n → Fin n → Ordering := order nodes Ledger.earliestFreeFirst

/-! ### Taking the front away -/

variable (cmp : Fin n → Fin n → Ordering)

/-- Position `c` if there is an entry and it orders strictly before the one at `best`, else `best`. -/
def earlier (items : Array (Fin n)) (best : Fin items.size) (c : Nat) : Fin items.size :=
  if h : c < items.size then if cmp items[c] items[best] = .lt then ⟨c, h⟩ else best else best

/-- Where the first one of the entry at position `i` and its children is. -/
def leader (items : Array (Fin n)) (i : Fin items.size) : Fin items.size :=
  earlier cmp items (earlier cmp items i (2 * i.val + 1)) (2 * i.val + 2)

/-- A position stays the best one, or the new one is. -/
theorem earlier_eq (items : Array (Fin n)) (best : Fin items.size) (c : Nat) :
    earlier cmp items best c = best ∨ (earlier cmp items best c).val = c := by
  unfold earlier
  split
  · split
    · exact .inr rfl
    · exact .inl rfl
  · exact .inl rfl

/-- The leader is the entry itself or one of its children. -/
theorem leader_eq (items : Array (Fin n)) (i : Fin items.size) : leader cmp items i = i ∨
    (leader cmp items i).val = 2 * i.val + 1 ∨ (leader cmp items i).val = 2 * i.val + 2 := by
  rcases earlier_eq cmp items (earlier cmp items i (2 * i.val + 1)) (2 * i.val + 2) with hleft | hright
  · rw [leader, hleft]
    exact (earlier_eq cmp items i (2 * i.val + 1)).imp_right .inl
  · exact .inr (.inr hright)

/-- The entry at position `i` goes down, changing places with the child that orders first, as long as a
child orders strictly before it. -/
def settle (items : Array (Fin n)) (i : Fin items.size) : Array (Fin n) :=
  if leader cmp items i = i then items
  else settle (items.swap i (leader cmp items i)) ⟨leader cmp items i, by simp⟩
termination_by items.size - i
decreasing_by
  rename_i hmoved
  have hchild := (leader_eq cmp items i).resolve_left hmoved
  simp only [Array.size_swap]
  omega

/-- Settling moves entries only. -/
@[simp]
theorem size_settle (items : Array (Fin n)) (i : Fin items.size) :
    (settle cmp items i).size = items.size := by
  fun_induction settle cmp items i with
  | case1 => rfl
  | case2 _ _ _ ih => rw [ih, Array.size_swap]

/-- Takes the first node away. -/
def pop (queue : NodeQueue n) : Option (Fin n × NodeQueue n) :=
  if hs : 0 < queue.items.size then
    -- The last entry takes the place of the root.
    let rest := (queue.items.swap 0 (queue.items.size - 1) hs (by omega)).pop
    some (queue.items[0], ⟨if hr : 0 < rest.size then settle cmp rest ⟨0, hr⟩ else rest⟩)
  else none

/-- A popped queue has one node less. -/
theorem size_of_pop {queue rest : NodeQueue n} {i : Fin n} (hp : queue.pop cmp = some (i, rest)) :
    rest.size + 1 = queue.size := by
  simp only [pop, Option.dite_none_right_eq_some, Option.some.injEq, Prod.mk.injEq] at hp
  obtain ⟨hs, -, rfl⟩ := hp
  simp only [Heap.size]
  split <;> simp <;> omega

end NodeQueue

end PodPlacement
