import PodPlacement.Proofs.HeapOrder
import PodPlacement.Proofs.Number.Order
import PodPlacement.Pod

/-! # Advancing a ledger

What `advance` does to the pods that run on a node, said without the heap that holds them.

* `advance_advance_self` — a ledger that was brought to an instant is already there.
* `pods_advance_subperm` — advancing starts no pod, whatever state the heap is in.
* `Sorted.pods_advance_perm` — on a sorted ledger the pods that stay are exactly the ones not finished.
* `Sorted.earliestFree_rank_le` — no pod on a sorted ledger finishes before `earliestFree`. -/

namespace PodPlacement

namespace RunningPod

instance : Std.TransCmp order := inferInstanceAs (Std.TransCmp (compareLex _ _))

/-- A pod that comes no later finishes no later. -/
theorem rank_le_of_order {p q : RunningPod} (h : (order p q).isLE) : p.finish.rank ≤ q.finish.rank := by
  rw [order, compareLex, Ordering.isLE_then_iff_and] at h
  exact Binary64.isLE_compare_iff.1 h.1

end RunningPod

namespace Ledger

/-- The pods that run on the node. -/
def pods (l : Ledger) : List RunningPod := l.running.toList

/-- The heap of running pods hands them out in the order they finish. -/
def Sorted (l : Ledger) : Prop := Heap.Valid RunningPod.order l.running

/-- The ledger is as it was made: nothing ever ran on the node. -/
def IsIdle (l : Ledger) : Prop := l = idle l.name l.capacity

/-- A ledger is made idle. -/
@[simp] theorem isIdle_idle (name : String) (capacity : Resources) : (idle name capacity).IsIdle := rfl

/-- An idle ledger stands at zero. -/
theorem IsIdle.advancedTo_eq {l : Ledger} (h : l.IsIdle) : l.advancedTo = 0 := by
  rw [IsIdle] at h
  rw [h]
  rfl

/-! ### What stays the same -/

/-- Advancing keeps the name. -/
@[simp] theorem name_advance (l : Ledger) (t : Seconds) : (l.advance t).name = l.name := rfl

/-- Advancing keeps the capacity. -/
@[simp] theorem capacity_advance (l : Ledger) (t : Seconds) : (l.advance t).capacity = l.capacity := rfl

/-- Advancing moves the instant the ledger has reached forward. -/
@[simp] theorem advancedTo_advance (l : Ledger) (t : Seconds) :
    (l.advance t).advancedTo = l.advancedTo.maxNum t := rfl

/-- Starting a pod keeps the name. -/
@[simp] theorem name_start (l : Ledger) (p : RunningPod) : (l.start p).name = l.name := rfl

/-- Starting a pod keeps the capacity. -/
@[simp] theorem capacity_start (l : Ledger) (p : RunningPod) : (l.start p).capacity = l.capacity := rfl

/-- Starting a pod keeps the instant the ledger has reached. -/
@[simp] theorem advancedTo_start (l : Ledger) (p : RunningPod) :
    (l.start p).advancedTo = l.advancedTo := rfl

/-- Starting a pod takes its request away from what is available. -/
@[simp] theorem available_start (l : Ledger) (p : RunningPod) :
    (l.start p).available = l.available - p.request := rfl

/-- Nothing runs on an idle node. -/
@[simp] theorem pods_idle (name : String) (capacity : Resources) : (idle name capacity).pods = [] := rfl

/-- An idle ledger is sorted. -/
theorem sorted_idle (name : String) (capacity : Resources) : (idle name capacity).Sorted :=
  Heap.valid_empty RunningPod.order

/-! ### Advancing -/

/-- What is available afterwards: the completed pods have given their requests back in turn. -/
theorem available_advance (l : Ledger) (t : Seconds) :
    (l.advance t).available = (l.completedBy t).1.foldl (fun a p => a + p.request) l.available := rfl

/-- Completed and staying pods make up the pods before. -/
theorem completedBy_perm (l : Ledger) (t : Seconds) :
    ((l.completedBy t).1 ++ (l.advance t).pods).Perm l.pods := Heap.perm_popWhile l.running

/-- A ledger that was brought to an instant is already there. -/
theorem advance_advance_self (l : Ledger) (t : Seconds) : (l.advance t).advance t = l.advance t := by
  have hgone : (l.advance t).completedBy t = ([], (l.completedBy t).2) :=
    Heap.popWhile_popWhile_snd l.running
  rw [advance, hgone]
  simp [advance]

/-- Advancing starts no pod. -/
theorem pods_advance_subperm (l : Ledger) (t : Seconds) : (l.advance t).pods.Subperm l.pods :=
  (List.sublist_append_right _ _).subperm.trans (completedBy_perm l t).subperm

/-- A pod that still runs was running before. -/
theorem mem_pods_of_mem_advance {l : Ledger} {t : Seconds} {p : RunningPod}
    (h : p ∈ (l.advance t).pods) : p ∈ l.pods := (pods_advance_subperm l t).subset h

/-- Starting a pod adds it to the running ones. -/
theorem pods_start_perm (l : Ledger) (p : RunningPod) : (l.start p).pods.Perm (p :: l.pods) :=
  Heap.perm_push l.running p

/-- A started pod is one of the running ones. -/
theorem mem_pods_start {l : Ledger} {p q : RunningPod} : q ∈ (l.start p).pods ↔ q = p ∨ q ∈ l.pods := by
  rw [(pods_start_perm l p).mem_iff, List.mem_cons]

/-! ### The next pod to finish -/

/-- A ledger is free from zero on, or when one of its pods finishes. -/
theorem earliestFree_eq_or (l : Ledger) :
    (l.pods = [] ∧ l.earliestFree = 0) ∨ ∃ p ∈ l.pods, l.earliestFree = p.finish := by
  by_cases hsize : 0 < l.running.items.size
  · right
    have hfirst : l.running.first? = some l.running.items[0] := Array.getElem?_eq_getElem hsize
    refine ⟨l.running.items[0], ?_, by rw [earliestFree, hfirst]; rfl⟩
    rw [pods, Heap.toList, Array.mem_toList_iff]
    exact Array.getElem_mem hsize
  · left
    have hempty : l.running.items = #[] := Array.size_eq_zero_iff.1 (by omega)
    have hfirst : l.running.first? = none := by rw [Heap.first?, hempty]; rfl
    exact ⟨by rw [pods, Heap.toList, hempty], by rw [earliestFree, hfirst]; rfl⟩

/-! ### Sorted ledgers -/

/-- Advancing keeps a ledger sorted. -/
theorem Sorted.advance {l : Ledger} (h : l.Sorted) (t : Seconds) : (l.advance t).Sorted :=
  Heap.valid_popWhile_snd h

/-- Starting a pod keeps a ledger sorted. -/
theorem Sorted.start {l : Ledger} (h : l.Sorted) (p : RunningPod) : (l.start p).Sorted :=
  Heap.valid_push h p

/-- No pod that stays on a sorted ledger has finished. -/
theorem Sorted.not_finish_le {l : Ledger} (h : l.Sorted) {t : Seconds} {p : RunningPod}
    (hp : p ∈ (l.advance t).pods) : ¬ p.finish ≤ t := by
  have hfail : decide (p.finish ≤ t) = false :=
    Heap.of_mem_popWhile_snd (fun q : RunningPod => decide (q.finish ≤ t)) h (fun x y hxy hy => by
      rw [decide_eq_true_eq] at *
      exact Binary64.le_of_rank_le (RunningPod.rank_le_of_order hxy) hy) hp
  exact of_decide_eq_false hfail

/-- A completed pod has finished. -/
theorem finish_le_of_mem_completedBy {l : Ledger} {t : Seconds} {p : RunningPod}
    (hp : p ∈ (l.completedBy t).1) : p.finish ≤ t := by
  have hpass := Heap.of_mem_popWhile_fst (fun q : RunningPod => decide (q.finish ≤ t)) hp
  exact of_decide_eq_true hpass

/-- A pod that finishes later stays. -/
theorem mem_pods_advance_of_lt {l : Ledger} {t : Seconds} {p : RunningPod} (hp : p ∈ l.pods)
    (h : t < p.finish) : p ∈ (l.advance t).pods := by
  rcases List.mem_append.1 ((completedBy_perm l t).mem_iff.2 hp) with hp | hp
  · exact absurd h (Binary64.not_lt_of_le (finish_le_of_mem_completedBy hp))
  · exact hp

/-- The pods that stay on a sorted ledger are exactly the ones that have not finished. -/
theorem Sorted.pods_advance_perm {l : Ledger} (h : l.Sorted) (t : Seconds) :
    (l.advance t).pods.Perm (l.pods.filter fun p => !decide (p.finish ≤ t)) := by
  have hsplit := (completedBy_perm l t).filter fun p : RunningPod => !decide (p.finish ≤ t)
  rw [List.filter_append] at hsplit
  have hnone : ((l.completedBy t).1.filter fun p : RunningPod => !decide (p.finish ≤ t)) = [] := by
    rw [List.filter_eq_nil_iff]
    intro p hp
    simpa using finish_le_of_mem_completedBy hp
  have hall : ((l.advance t).pods.filter fun p : RunningPod => !decide (p.finish ≤ t)) =
      (l.advance t).pods := by
    rw [List.filter_eq_self]
    intro p hp
    simpa using h.not_finish_le hp
  rwa [hnone, hall, List.nil_append] at hsplit

/-- The completed pods of a sorted ledger are exactly the ones that have finished. -/
theorem Sorted.completedBy_perm_filter {l : Ledger} (h : l.Sorted) (t : Seconds) :
    (l.completedBy t).1.Perm (l.pods.filter fun p => decide (p.finish ≤ t)) := by
  have hsplit := (completedBy_perm l t).filter fun p : RunningPod => decide (p.finish ≤ t)
  rw [List.filter_append] at hsplit
  have hall : ((l.completedBy t).1.filter fun p : RunningPod => decide (p.finish ≤ t)) =
      (l.completedBy t).1 := by
    rw [List.filter_eq_self]
    intro p hp
    simpa using finish_le_of_mem_completedBy hp
  have hnone : ((l.advance t).pods.filter fun p : RunningPod => decide (p.finish ≤ t)) = [] := by
    rw [List.filter_eq_nil_iff]
    intro p hp
    simpa using h.not_finish_le hp
  rwa [hall, hnone, List.append_nil] at hsplit

/-- No pod on a sorted ledger finishes before `earliestFree`. -/
theorem Sorted.earliestFree_rank_le {l : Ledger} (h : l.Sorted) {p : RunningPod} (hp : p ∈ l.pods) :
    l.earliestFree.rank ≤ p.finish.rank := by
  obtain ⟨j, hj, rfl⟩ := List.mem_iff_getElem.1 hp
  have hj' : j < l.running.items.size := by simpa [pods, Heap.toList] using hj
  have hroot := Heap.Ordered.isLE_root h j hj' (by omega)
  have hfirst : l.running.first? = some l.running.items[0] :=
    Array.getElem?_eq_getElem (by omega)
  rw [earliestFree, hfirst]
  exact RunningPod.rank_le_of_order hroot

/-! ### What the pods hold -/

/-- What the running pods hold. -/
def requests (l : Ledger) : List Resources := l.pods.map RunningPod.request

/-- What the running pods hold that finish after `t`. -/
def requestsAfter (l : Ledger) (t : Seconds) : List Resources :=
  (l.pods.filter fun p => decide (t < p.finish)).map RunningPod.request

/-- Pods that finish later are among the running ones. -/
theorem requestsAfter_subperm (l : Ledger) (t : Seconds) : (l.requestsAfter t).Subperm l.requests :=
  (List.filter_sublist.map RunningPod.request).subperm

end Ledger

end PodPlacement
