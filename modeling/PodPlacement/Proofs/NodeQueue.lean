import Mathlib.Order.Fin.Basic
import PodPlacement.NodeQueue
import PodPlacement.Proofs.HeapOrder
import PodPlacement.Proofs.Number.Order
import PodPlacement.Proofs.Sorting

/-! # The node queue is a priority queue

Whatever the nodes are compared by, as long as it puts them in an order: a node queue hands out the first
of the nodes it holds, and holds what was put in and not handed out yet.

* `order_congr`, `eq_of_order` — the order of a queue depends on ledgers only, and no two nodes are alike
  in it.
* `leader_isLE`, `ordered_settle` — the entry that takes the place of the root settles where it is in
  order with its children.
* `perm_pop`, `valid_pop`, `isLE_of_pop` — taking the front away.
* `perm_drain`, `pairwise_drain` — taking away everything.
* `Used`, `Serves`, `nodeQueue_serves` — a queue that is built, used and not disturbed while nodes change. -/

namespace PodPlacement

/-! ### Nodes -/

namespace Nodes

variable {n : Nat}

/-- The ledger that was put at a position is there. -/
@[simp] theorem getElem_set_self (nodes : Nodes n) (i : Fin n) (l : Ledger) :
    (nodes.set i l i.isLt)[i] = l := by
  show (nodes.set i l i.isLt)[i.val] = l
  rw [Vector.getElem_set_self]

/-- The other positions keep their ledgers. -/
theorem getElem_set_ne (nodes : Nodes n) {i j : Fin n} (l : Ledger) (h : j ≠ i) :
    (nodes.set i l i.isLt)[j] = nodes[j] := by
  show (nodes.set i l i.isLt)[j.val] = nodes[j.val]
  rw [Vector.getElem_set_ne]
  exact fun hij => h (Fin.ext hij.symm)

/-- Positions apart from the one that was set keep their ledgers. -/
theorem getElem_set_of_mem (nodes : Nodes n) {i j : Fin n} (l : Ledger) {is : List (Fin n)} (hi : i ∉ is)
    (hj : j ∈ is) : (nodes.set i l i.isLt)[j] = nodes[j] := by
  refine getElem_set_ne nodes l ?_
  rintro rfl
  exact hi hj

end Nodes

namespace NodeQueue

variable {n : Nat}

/-! ### Orders of nodes -/

section Order

/-- A comparison puts the nodes in an order, in which several may come alike. -/
abbrev Orders (cmp : Ledger → Ledger → Ordering) (nodes : Nodes n) : Prop :=
  Std.TransCmp fun i j : Fin n => cmp nodes[i] nodes[j]

variable {cmp : Ledger → Ledger → Ordering} {nodes nodes' : Nodes n} {i j : Fin n}

/-- What puts all ledgers in an order puts the nodes in an order. -/
theorem orders_of_transCmp (cmp : Ledger → Ledger → Ordering) [Std.TransCmp cmp] (nodes : Nodes n) :
    Orders cmp nodes where
  eq_swap := Std.OrientedCmp.eq_swap
  isLE_trans := Std.TransCmp.isLE_trans

instance : Std.TransCmp Ledger.earliestFreeFirst :=
  have _byCpu : Std.TransCmp fun a b : Ledger => compare b.available.cpu a.available.cpu :=
    inferInstanceAs (Std.TransCmp fun a b => compareOn (fun l : Ledger => l.available.cpu) b a)
  inferInstanceAs (Std.TransCmp (compareLex _ _))

/-- With the positions, the nodes are in an order as well. -/
theorem transCmp_order (h : Orders cmp nodes) : Std.TransCmp (order nodes cmp) :=
  inferInstanceAs (Std.TransCmp (compareLex _ _))

instance (nodes : Nodes n) : Std.TransCmp (searchOrder nodes) :=
  transCmp_order (orders_of_transCmp Ledger.earliestFreeFirst nodes)

/-- The order of two nodes depends on their ledgers only. -/
theorem order_congr (hi : nodes'[i] = nodes[i]) (hj : nodes'[j] = nodes[j]) :
    order nodes' cmp i j = order nodes cmp i j := by
  simp only [order, compareLex, hi, hj]

/-- No two nodes are alike in the order of a queue. -/
theorem eq_of_order (h : order nodes cmp i j = .eq) : i = j := by
  rw [order, compareLex, Ordering.then_eq_eq] at h
  exact Std.LawfulEqCmp.eq_of_compare h.2

/-- Of two nodes, the one that comes no later comes earlier. -/
theorem order_eq_lt (h : (order nodes cmp i j).isLE) (hne : i ≠ j) : order nodes cmp i j = .lt := by
  cases hc : order nodes cmp i j with
  | lt => rfl
  | eq => exact absurd (eq_of_order hc) hne
  | gt => simp [hc] at h

/-- The order of two nodes in the search depends on their ledgers only. -/
theorem searchOrder_congr (hi : nodes'[i] = nodes[i]) (hj : nodes'[j] = nodes[j]) :
    searchOrder nodes' i j = searchOrder nodes i j := order_congr hi hj

/-- No two nodes are alike in the order of the search. -/
theorem eq_of_searchOrder (h : searchOrder nodes i j = .eq) : i = j := eq_of_order h

/-- Of two nodes, the one that comes no later comes earlier in the search. -/
theorem searchOrder_eq_lt (h : (searchOrder nodes i j).isLE) (hne : i ≠ j) :
    searchOrder nodes i j = .lt := order_eq_lt h hne

/-- A node that comes no later is free no later. -/
theorem earliestFree_rank_le (h : (searchOrder nodes i j).isLE) :
    nodes[i].earliestFree.rank ≤ nodes[j].earliestFree.rank := by
  rw [searchOrder, order, compareLex, Ordering.isLE_then_iff_and] at h
  have hfree := h.1
  rw [Ledger.earliestFreeFirst, compareLex, Ordering.isLE_then_iff_and] at hfree
  exact Binary64.isLE_compare_iff.1 hfree.1

end Order

/-! ### Settling -/

section Settle

variable {cmp : Fin n → Fin n → Ordering}

/-- Settling rearranges the entries. -/
theorem perm_settle (items : Array (Fin n)) (i : Fin items.size) : (settle cmp items i).Perm items := by
  fun_induction settle cmp items i with
  | case1 => exact .refl _
  | case2 _ _ _ ih => exact ih.trans (Array.swap_perm _ _)

variable [Std.TransCmp cmp] {items : Array (Fin n)}

/-- The better one of two positions is no worse than the first. -/
theorem earlier_isLE_best (best : Fin items.size) (c : Nat) :
    (cmp items[earlier cmp items best c] items[best]).isLE := by
  unfold earlier
  split
  · split
    · rename_i hlt
      exact Ordering.isLE_of_eq_lt hlt
    · exact Std.ReflCmp.isLE_rfl
  · exact Std.ReflCmp.isLE_rfl

/-- The better one of two positions is no worse than the second. -/
theorem earlier_isLE (best : Fin items.size) {c : Nat} (hc : c < items.size) :
    (cmp items[earlier cmp items best c] items[c]).isLE := by
  simp only [earlier, dif_pos hc]
  split
  · exact Std.ReflCmp.isLE_rfl
  · rename_i hlt
    exact isLE_of_ne_lt hlt

/-- The leader does not order after the entry. -/
theorem leader_isLE_self (i : Fin items.size) : (cmp items[leader cmp items i] items[i]).isLE :=
  Std.TransCmp.isLE_trans (earlier_isLE_best _ _) (earlier_isLE_best i _)

/-- The leader does not order after a child of the entry. -/
theorem leader_isLE (i : Fin items.size) (j : Nat) (hj : j < items.size) (hpos : 0 < j)
    (hp : (j - 1) / 2 = i.val) : (cmp items[leader cmp items i] items[j]).isLE := by
  have hchild : j = 2 * i.val + 1 ∨ j = 2 * i.val + 2 := by omega
  rcases hchild with rfl | rfl
  · exact Std.TransCmp.isLE_trans (earlier_isLE_best _ _) (earlier_isLE i hj)
  · exact earlier_isLE _ hj

/-- An entry that is in order with its parent settles in its place. -/
theorem ordered_settle {i : Fin items.size} (h : Heap.OrderedOff cmp items i i.isLt)
    (above : 0 < i.val → (cmp items[(i.val - 1) / 2] items[i]).isLE) :
    Heap.Ordered cmp (settle cmp items i) := by
  fun_induction settle cmp items i with
  | case1 items i hstays =>
    -- The entry leads its children, and every other pair is in order already.
    intro j hj _ hpos
    by_cases hji : j = i.val
    · subst hji
      exact above hpos
    · by_cases hp : (j - 1) / 2 = i.val
      · have hleads : (cmp items[leader cmp items i] items[j]).isLE := leader_isLE i j hj hpos hp
        simp only [hstays, Fin.getElem_fin] at hleads
        simpa only [hp] using hleads
      · exact h.off j hj hpos hji hp
  | case2 items i hmoves ih =>
    have hchild := (leader_eq cmp items i).resolve_left hmoves
    have hself : (cmp items[leader cmp items i] items[i]).isLE := leader_isLE_self i
    refine ih (h.swap_child _ (by omega) (by omega) (leader_isLE i)) ?_
    -- The child that came up is the parent now.
    intro _
    have hparent : ((leader cmp items i).val - 1) / 2 = i.val := by omega
    simpa [hparent] using hself

end Settle

/-! ### Taking the front away -/

section Pop

variable {cmp : Fin n → Fin n → Ordering} {queue rest : NodeQueue n} {i : Fin n}

/-- A pop takes one node away. -/
theorem perm_pop (hp : queue.pop cmp = some (i, rest)) : (i :: rest.toList).Perm queue.toList := by
  simp only [pop, Option.dite_none_right_eq_some, Option.some.injEq, Prod.mk.injEq] at hp
  obtain ⟨hs, rfl, rfl⟩ := hp
  refine List.Perm.trans (List.Perm.cons _ ?_) (Heap.perm_swap_pop hs (by omega))
  show List.Perm (Array.toList _) _
  split
  · exact (perm_settle _ _).toList
  · exact .refl _

/-- Exactly a queue without nodes hands nothing out. -/
theorem pop_eq_none_iff : queue.pop cmp = none ↔ queue.toList = [] := by
  simp [pop, Heap.toList]

/-- A queue that hands nothing out is empty. -/
theorem toList_eq_nil_of_pop (hp : queue.pop cmp = none) : queue.toList = [] := pop_eq_none_iff.1 hp

variable [Std.TransCmp cmp]

/-- A pop keeps a queue in order. -/
theorem valid_pop (hv : Heap.Valid cmp queue) (hp : queue.pop cmp = some (i, rest)) :
    Heap.Valid cmp rest := by
  simp only [pop, Option.dite_none_right_eq_some, Option.some.injEq, Prod.mk.injEq] at hp
  obtain ⟨hs, -, rfl⟩ := hp
  show Heap.Ordered cmp (dite _ _ _)
  split
  · rename_i hr
    exact ordered_settle (Heap.Ordered.orderedOff_swap_pop hv hs (by omega) hr) (fun h0 => by cases h0)
  · intro j hj
    omega

/-- The node a queue in order hands out comes after no other one. -/
theorem isLE_of_pop (hv : Heap.Valid cmp queue) (hp : queue.pop cmp = some (i, rest)) :
    ∀ j ∈ queue.toList, (cmp i j).isLE := by
  simp only [pop, Option.dite_none_right_eq_some, Option.some.injEq, Prod.mk.injEq] at hp
  obtain ⟨hs, rfl, -⟩ := hp
  intro j hj
  obtain ⟨k, hk, rfl⟩ := List.mem_iff_getElem.1 hj
  exact Heap.Ordered.isLE_root hv k (by simpa [Heap.toList] using hk) hs

end Pop

/-! ### Taking everything away -/

section Drain

/-- The nodes of a queue, in the order in which it hands them out. -/
def drain (cmp : Fin n → Fin n → Ordering) (queue : NodeQueue n) : List (Fin n) :=
  match _hp : queue.pop cmp with
  | none => []
  | some (i, rest) => i :: drain cmp rest
termination_by queue.size
decreasing_by
  have := size_of_pop cmp _hp
  omega

variable {cmp : Fin n → Fin n → Ordering}

/-- A queue hands out the nodes it holds. -/
theorem perm_drain (queue : NodeQueue n) : (queue.drain cmp).Perm queue.toList := by
  fun_induction drain cmp queue with
  | case1 queue hp => rw [toList_eq_nil_of_pop hp]
  | case2 queue i rest hp ih => exact (ih.cons i).trans (perm_pop hp)

/-- A queue in order hands its nodes out in order. -/
theorem pairwise_drain [Std.TransCmp cmp] {queue : NodeQueue n} (hv : Heap.Valid cmp queue) :
    (queue.drain cmp).Pairwise fun i j => (cmp i j).isLE := by
  fun_induction drain cmp queue with
  | case1 => exact .nil
  | case2 queue i rest hp ih =>
    refine List.pairwise_cons.2 ⟨?_, ih (valid_pop hv hp)⟩
    intro j hj
    exact isLE_of_pop hv hp j ((perm_pop hp).subset (List.mem_cons_of_mem i ((perm_drain rest).subset hj)))

/-- A queue in order hands its nodes out as sorting puts them, since no two of them are alike. -/
theorem drain_eq_sortBy {cmp : Ledger → Ledger → Ordering} {nodes : Nodes n} (h : Orders cmp nodes)
    {queue : NodeQueue n} (hv : Heap.Valid (order nodes cmp) queue) {held : List (Fin n)}
    (hheld : queue.toList.Perm held) : queue.drain (order nodes cmp) = sortBy (order nodes cmp) held := by
  have := transCmp_order h
  have hperm : (queue.drain (order nodes cmp)).Perm (sortBy (order nodes cmp) held) :=
    (perm_drain queue).trans (hheld.trans (sortBy_perm _ held).symm)
  refine hperm.eq_of_pairwise ?_ (pairwise_drain hv) (pairwise_sortBy held)
  intro i j _ _ hij hji
  exact eq_of_order (eq_of_isLE_of_isLE hij hji)

end Drain

/-! ### Using a queue -/

/-- A queue in use: the nodes as they are now, the queue, and what was put in and handed out, in turn, since
the queue was built. Whenever a node changes, it is not queued. -/
inductive Used (cmp : Ledger → Ledger → Ordering) :
    Nodes n → NodeQueue n → List (Fin n) → List (Fin n) → Prop where
  /-- A queue is built from some nodes. -/
  | withNodes {nodes : Nodes n} (h : Orders cmp nodes) (is : List (Fin n)) :
    Used cmp nodes (Heap.ofList (order nodes cmp) is) is []
  /-- A node is queued, which may be queued already. -/
  | push {nodes : Nodes n} {queue : NodeQueue n} {pushed popped : List (Fin n)}
    (h : Used cmp nodes queue pushed popped) (i : Fin n) :
    Used cmp nodes (queue.push (order nodes cmp) i) (pushed ++ [i]) popped
  /-- A node is handed out. -/
  | pop {nodes : Nodes n} {queue rest : NodeQueue n} {pushed popped : List (Fin n)} {i : Fin n}
    (h : Used cmp nodes queue pushed popped) (hp : queue.pop (order nodes cmp) = some (i, rest)) :
    Used cmp nodes rest pushed (popped ++ [i])
  /-- A node that is not queued changes. -/
  | change {nodes : Nodes n} {queue : NodeQueue n} {pushed popped : List (Fin n)}
    (h : Used cmp nodes queue pushed popped) {i : Fin n} (hi : i ∉ queue.toList) (l : Ledger)
    (horders : Orders cmp (nodes.set i l i.isLt)) :
    Used cmp (nodes.set i l i.isLt) queue pushed popped

namespace Used

variable {cmp : Ledger → Ledger → Ordering} {nodes : Nodes n} {queue : NodeQueue n}
  {pushed popped : List (Fin n)}

/-- The nodes stay in an order. -/
theorem orders (h : Used cmp nodes queue pushed popped) : Orders cmp nodes := by
  induction h with
  | withNodes h _ => exact h
  | push _ _ ih | pop _ _ ih => exact ih
  | change _ _ _ horders => exact horders

/-- The queue stays in order. -/
theorem valid (h : Used cmp nodes queue pushed popped) : Heap.Valid (order nodes cmp) queue := by
  have htrans := @transCmp_order n cmp
  induction h with
  | withNodes h is =>
    have := htrans h
    exact Heap.valid_ofList is
  | push h i ih =>
    have := htrans h.orders
    exact Heap.valid_push ih i
  | pop h hp ih =>
    have := htrans h.orders
    exact valid_pop ih hp
  | @change nodes _ _ _ _ _ hi l _ ih =>
    refine ih.congr fun x hx y hy => ?_
    exact order_congr (Nodes.getElem_set_of_mem nodes l hi hx) (Nodes.getElem_set_of_mem nodes l hi hy)

/-- The queue holds what was put in and not handed out. -/
theorem perm (h : Used cmp nodes queue pushed popped) : (popped ++ queue.toList).Perm pushed := by
  induction h with
  | withNodes _ is => exact Heap.perm_ofList is
  | @push _ queue pushed popped _ i ih =>
    refine ((Heap.perm_push queue i).append_left popped).trans ?_
    exact List.perm_middle.trans ((ih.cons i).trans (List.perm_append_singleton i pushed).symm)
  | @pop _ _ _ _ popped i _ hp ih =>
    rw [List.append_assoc]
    exact ((perm_pop hp).append_left popped).trans ih
  | change _ _ _ _ ih => exact ih

end Used

/-- What a queue in the order `cmp` is for, after some nodes were put in and some handed out. -/
structure Serves (cmp : Fin n → Fin n → Ordering) (queue : NodeQueue n) (pushed popped : List (Fin n)) :
    Prop where
  /-- It holds what was put in and not handed out, each as many times. -/
  held : (popped ++ queue.toList).Perm pushed
  /-- It hands nothing out exactly if it holds nothing. -/
  empty : queue.pop cmp = none ↔ queue.toList = []
  /-- It hands out a node it holds, which comes before every other one, and holds the rest afterwards. -/
  first : ∀ i rest, queue.pop cmp = some (i, rest) →
    (i :: rest.toList).Perm queue.toList ∧ ∀ j ∈ queue.toList, j ≠ i → cmp i j = .lt
  /-- Once all of it is handed out, the nodes have come in order. -/
  drained : ∀ held, (popped ++ held).Perm pushed → queue.drain cmp = sortBy cmp held

/-- Both orders in use order all nodes. A queue that is built with a comparison that orders the nodes, and
whose nodes do not change while they are queued, is a priority queue at any time. -/
theorem nodeQueue_serves (n : Nat) :
    (∀ nodes : Nodes n, Orders Ledger.earliestFreeFirst nodes ∧ Orders (compareOn Ledger.name) nodes) ∧
      ∀ {cmp : Ledger → Ledger → Ordering} {nodes : Nodes n} {queue : NodeQueue n}
        {pushed popped : List (Fin n)}, Used cmp nodes queue pushed popped →
          Serves (order nodes cmp) queue pushed popped := by
  refine ⟨fun nodes => ⟨orders_of_transCmp _ nodes, orders_of_transCmp _ nodes⟩, ?_⟩
  intro cmp nodes queue pushed popped h
  have := transCmp_order h.orders
  refine ⟨h.perm, pop_eq_none_iff, ?_, ?_⟩
  · intro i rest hp
    refine ⟨perm_pop hp, ?_⟩
    intro j hj hji
    exact order_eq_lt (isLE_of_pop h.valid hp j hj) hji.symm
  · intro held hheld
    have hrest : queue.toList.Perm held :=
      (List.perm_append_left_iff popped).1 (h.perm.trans hheld.symm)
    exact drain_eq_sortBy h.orders h.valid hrest

/-- Two nodes alike but for their names. -/
def twins : Nodes 2 := #v[.idle "a" (.ofCpu 2), .idle "b" (.ofCpu 2)]

/-- The first one of the twins after it was given a pod. -/
def busyTwin : Ledger := (twins[(0 : Fin 2)].assign 1 30 (.ofCpu 1) 0).1

/-- The queue of the twins after the first one was handed out, was given a pod, and was queued again. -/
theorem nodeQueue_serves_busyTwin : ∃ queue : NodeQueue 2,
    Used Ledger.earliestFreeFirst (twins.set 0 busyTwin) queue [0, 1, 0] [0] ∧
      Serves (order (twins.set 0 busyTwin) Ledger.earliestFreeFirst) queue [0, 1, 0] [0] := by
  have horders := (nodeQueue_serves 2).1
  have hpop : pop (order twins Ledger.earliestFreeFirst)
      (Heap.ofList (order twins Ledger.earliestFreeFirst) [0, 1]) = some (0, ⟨#[1]⟩) := by
    decide +kernel
  have hpopped : Used Ledger.earliestFreeFirst twins ⟨#[1]⟩ [0, 1] [0] :=
    .pop (.withNodes (horders twins).1 [0, 1]) hpop
  have hchanged : Used Ledger.earliestFreeFirst (twins.set 0 busyTwin) ⟨#[1]⟩ [0, 1] [0] :=
    hpopped.change (show (0 : Fin 2) ∉ [1] by decide) busyTwin (horders _).1
  exact ⟨_, hchanged.push 0, (nodeQueue_serves 2).2 (hchanged.push 0)⟩

-- The twin without a pod comes first now.
example : drain (searchOrder (twins.set 0 busyTwin))
    (Heap.push (searchOrder (twins.set 0 busyTwin)) ⟨#[1]⟩ 0) = [1, 0] := by decide +kernel

end NodeQueue

end PodPlacement
