import Mathlib.Data.List.Nodup
import PodPlacement.Policy
import PodPlacement.Proofs.Number.Order
import PodPlacement.Proofs.Sorting

/-! # The order pods are tried in

The pods that are ready are the ones submitted by the clock, sorted. So they depend neither on pods that
are submitted later nor, when pods are tried in the order of their submission, on how the pending pods
are arranged.

* `readyPods_eq_sortBy` — the ready pods without their positions.
* `readyPods_filter` — pods that are not ready may be left out.
* `readyPods_fifo_eq_of_perm`, `arrange_eq_of_perm` — pods with distinct numbers may be given in any
  order. -/

namespace PodPlacement

/-- Among pods with distinct numbers, a number belongs to one pod. -/
theorem eq_of_id_eq {pods : List Pod} (hids : (pods.map Pod.id).Nodup) {a b : Pod} (ha : a ∈ pods)
    (hb : b ∈ pods) (h : a.id = b.id) : a = b := List.inj_on_of_nodup_map hids ha hb h

namespace PodOrder

instance (order : PodOrder) : Std.TransCmp order.before :=
  match order with
  | fifo => inferInstanceAs (Std.TransCmp (compareLex (compareOn Pod.submit) (compareOn Pod.id)))
  | shortestFirst => inferInstanceAs (Std.TransCmp (compareOn Pod.duration))
  | longestFirst => inferInstanceAs (Std.TransCmp fun a b => compareOn Pod.duration b a)

variable (order : PodOrder) {pending pending' : List Pod} {clock : Seconds}

/-! ### Ready pods -/

/-- The ready pods are the ones submitted by the clock, sorted. -/
theorem readyPods_eq_sortBy (pending : List Pod) (clock : Seconds) : order.readyPods pending clock =
    sortBy order.before (pending.filter fun p => decide (p.submit ≤ clock)) := by
  have hmap : ((pending.zipIdx.filter fun p => decide (p.1.submit ≤ clock)).map Prod.fst) =
      pending.filter fun p => decide (p.submit ≤ clock) := by
    have hfst := List.zipIdx_map_fst 0 pending
    conv_rhs => rw [← hfst, List.filter_map]
    rfl
  rw [readyPods, ready, map_sortBy order.before Prod.fst, hmap]

/-- The ready pods are sorted. -/
theorem pairwise_readyPods (pending : List Pod) (clock : Seconds) :
    (order.readyPods pending clock).Pairwise fun a b => (order.before a b).isLE := by
  rw [readyPods_eq_sortBy]
  exact pairwise_sortBy _

/-- Pods that are not ready may be left out. -/
theorem readyPods_filter {p : Pod → Bool} (h : ∀ pod, pod.submit ≤ clock → p pod = true) :
    order.readyPods (pending.filter p) clock = order.readyPods pending clock := by
  rw [readyPods_eq_sortBy, readyPods_eq_sortBy, List.filter_filter]
  congr 1
  refine List.filter_congr ?_
  intro pod _
  by_cases hready : pod.submit ≤ clock
  · simp [hready, h pod hready]
  · simp [hready]

/-! ### The order of submission -/

/-- Pods that are tried alike share their number. -/
theorem id_eq_of_fifo_before {a b : Pod} (h : fifo.before a b = .eq) : a.id = b.id := by
  rw [before, compareLex, Ordering.then_eq_eq] at h
  exact Nat.compare_eq_eq.1 h.2

/-- Of two pods with different numbers, the one that is tried no later is tried earlier. -/
theorem fifo_before_eq_lt {a b : Pod} (h : (fifo.before a b).isLE) (hid : a.id ≠ b.id) :
    fifo.before a b = .lt := by
  cases hc : fifo.before a b with
  | lt => rfl
  | eq => exact absurd (id_eq_of_fifo_before hc) hid
  | gt => simp [hc] at h

/-- A pod that is tried earlier was submitted no later. -/
theorem rank_submit_le_of_fifo_before {a b : Pod} (h : fifo.before a b = .lt) :
    a.submit.rank ≤ b.submit.rank := by
  have hle : (fifo.before a b).isLE := Ordering.isLE_of_eq_lt h
  rw [before, compareLex, Ordering.isLE_then_iff_and] at hle
  exact Binary64.isLE_compare_iff.1 hle.1

/-- Pods with distinct numbers that are tried in the order of their submission may be pending in any
order. -/
theorem readyPods_fifo_eq_of_perm (hids : (pending.map Pod.id).Nodup) (hperm : pending.Perm pending')
    (clock : Seconds) : fifo.readyPods pending clock = fifo.readyPods pending' clock := by
  rw [readyPods_eq_sortBy, readyPods_eq_sortBy]
  refine sortBy_eq_of_perm (hperm.filter _) ?_
  intro a ha b hb h
  exact eq_of_id_eq hids (List.mem_filter.1 ha).1 (List.mem_filter.1 hb).1 (id_eq_of_fifo_before h)

end PodOrder

/-! ### The order of jobs -/

/-- Arranging rearranges. -/
theorem arrange_perm (order : JobOrder) (pods : List Pod) : (order.arrange pods).Perm pods := by
  cases order with
  | input => exact sortBy_perm _ _
  | sizeAscending | sizeDescending => exact (sortBy_perm _ _).trans (sortBy_perm _ _)

namespace JobOrder

/-- Sorted by number, pods with distinct numbers come in one order only. -/
theorem sortBy_id_eq_of_perm {pods pods' : List Pod} (hids : (pods.map Pod.id).Nodup)
    (hperm : pods.Perm pods') :
    sortBy (compareOn Pod.id) pods = sortBy (compareOn Pod.id) pods' := by
  refine sortBy_eq_of_perm hperm ?_
  intro a ha b hb h
  exact eq_of_id_eq hids ha hb (Nat.compare_eq_eq.1 h)

/-- Pods with distinct numbers are arranged in one way only, in whatever order they are given. -/
theorem arrange_eq_of_perm (order : JobOrder) {pods pods' : List Pod} (hids : (pods.map Pod.id).Nodup)
    (hperm : pods.Perm pods') : order.arrange pods = order.arrange pods' := by
  -- Everything that follows the first sort, the sizes of the jobs included, depends on its result.
  simp only [arrange, sortBy_id_eq_of_perm hids hperm]

/-- Without regard to jobs, pods may be left out before or after arranging. -/
theorem filter_arrange_input (p : Pod → Bool) (pods : List Pod) :
    (input.arrange pods).filter p = input.arrange (pods.filter p) := filter_sortBy p pods

end JobOrder

end PodPlacement
