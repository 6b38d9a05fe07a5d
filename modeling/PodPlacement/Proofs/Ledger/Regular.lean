import PodPlacement.Proofs.Ledger.Balance
import PodPlacement.Proofs.Placement.Trial

/-! # Ledgers in order

A ledger is `Regular` if it is sorted, balanced in every resource and if its pods finish at numbers. On
a regular ledger an admitted request is within the capacity of the node, and once the ledger is empty
these two say the same.

* `Regular.advance`, `Regular.start` — a regular ledger stays regular.
* `Regular.fits_of_refusal?_eq_none`, `Regular.couldHost_iff_canAdmit` — admission and capacity.
* `Together` — all pods on the ledger finish at one instant; then the ledger is empty as soon as it is
  free (`Sorted.pods_advance_eq_nil`).
* `Reached`, `Reached.regular` — the ledgers that accepted assignments lead to are regular. -/

namespace PodPlacement

namespace Ledger

/-! ### Requests and capacities -/

/-- The node takes part, and the request is within its whole capacity. -/
def couldHost (l : Ledger) (request : Resources) : Bool :=
  l.isActive && decide (request.cpu ≤ l.capacity.cpu) && decide (request.gpu ≤ l.capacity.gpu) &&
    decide (request.memory ≤ l.capacity.memory)

/-- A request of whole cores is within the capacity exactly if nothing is short of it. -/
theorem couldHost_iff {l : Ledger} {request : Resources} (hr : request.WholeCores)
    (hl : l.capacity.WholeCores) :
    l.couldHost request = true ↔ l.isActive = true ∧ request.shortage? l.capacity = none := by
  obtain ⟨i, hi, hri⟩ := hr
  obtain ⟨j, hj, hlj⟩ := hl
  rw [couldHost, Resources.shortage?_eq_none, hlj.add_tolerance_lt_iff hri hj, Nat.not_lt,
    ← hri.le_iff_le hlj]
  simp only [Bool.and_eq_true, decide_eq_true_eq, Capped.le_iff_val, and_assoc]

/-- Whether a request fits depends on the capacity only. -/
theorem couldHost_congr {l l' : Ledger} (h : l'.capacity = l.capacity) (request : Resources) :
    l'.couldHost request = l.couldHost request := by
  rw [couldHost, couldHost, isActive, isActive, h]

/-! ### Regular ledgers -/

/-- A ledger in order: sorted, balanced in every resource, and with finishes that are numbers. -/
structure Regular (l : Ledger) : Prop where
  /-- The ledger is sorted. -/
  sorted : l.Sorted
  /-- The ledger is balanced in CPU. -/
  cpu : l.Balanced .cpu
  /-- The ledger is balanced in GPUs. -/
  gpu : l.Balanced .gpu
  /-- The ledger is balanced in memory. -/
  memory : l.Balanced .memory
  /-- Every pod finishes at a number. -/
  finish : ∀ p ∈ l.pods, p.finish.isNaN = false

/-- All pods on the ledger finish at one instant. -/
def Together (l : Ledger) : Prop := ∀ p ∈ l.pods, ∀ q ∈ l.pods, p.finish ≤ q.finish

/-- On an empty ledger there is nothing to compare. -/
theorem together_of_pods_eq_nil {l : Ledger} (h : l.pods = []) : l.Together := by
  intro p hp
  rw [h] at hp
  cases hp

/-- Pods that are left finish at one instant if all of them did. -/
theorem Together.advance {l : Ledger} (h : l.Together) (t : Seconds) : (l.advance t).Together :=
  fun p hp q hq => h p (mem_pods_of_mem_advance hp) q (mem_pods_of_mem_advance hq)

/-- A ledger whose pods finish at numbers is free at a number. -/
theorem earliestFree_isNaN_of_finish {l : Ledger} (h : ∀ p ∈ l.pods, p.finish.isNaN = false) :
    l.earliestFree.isNaN = false := by
  rcases l.earliestFree_eq_or with ⟨-, hfree⟩ | ⟨p, hp, hfree⟩
  · rw [hfree]
    rfl
  · rw [hfree]
    exact h p hp

/-- A sorted ledger whose pods finish at one instant is empty once it is free. -/
theorem Sorted.pods_advance_eq_nil {l : Ledger} (h : l.Sorted) (htogether : l.Together) {t : Seconds}
    (ht : l.earliestFree ≤ t) : (l.advance t).pods = [] := by
  rw [List.eq_nil_iff_forall_not_mem]
  intro p hp
  have hrunning := mem_pods_of_mem_advance hp
  rcases l.earliestFree_eq_or with ⟨hempty, -⟩ | ⟨q, hq, hfree⟩
  · rw [hempty] at hrunning
    cases hrunning
  · rw [hfree] at ht
    exact h.not_finish_le hp (Binary64.le_trans (htogether p hrunning q hq) ht)

namespace Regular

variable {l : Ledger} {request : Resources}

/-- An idle ledger of whole cores is in order. -/
theorem idle (name : String) {capacity : Resources} (h : capacity.WholeCores) :
    (Ledger.idle name capacity).Regular :=
  ⟨sorted_idle name capacity, .idle name h, .idle name trivial, .idle name trivial,
    fun _ hp => absurd hp List.not_mem_nil⟩

/-- Advancing keeps a ledger in order. -/
theorem advance (h : l.Regular) (t : Seconds) : (l.advance t).Regular :=
  ⟨h.sorted.advance t, h.cpu.advance t, h.gpu.advance t, h.memory.advance t,
    fun p hp => h.finish p (mem_pods_of_mem_advance hp)⟩

/-- Starting a pod that is admitted keeps a ledger in order. -/
theorem start (h : l.Regular) {p : RunningPod} (hrequest : p.request.WholeCores)
    (hfinish : p.finish.isNaN = false) (hfit : l.refusal? p.request = none) : (l.start p).Regular := by
  refine ⟨h.sorted.start p, h.cpu.start hrequest hfit, h.gpu.start trivial hfit,
    h.memory.start trivial hfit, ?_⟩
  intro q hq
  rcases mem_pods_start.1 hq with rfl | hq
  · exact hfinish
  · exact h.finish q hq

/-- Hosting a pod keeps a ledger in order. -/
theorem host (h : l.Regular) {pod : Pod} {t : Seconds} (hrequest : pod.requests.WholeCores)
    (hduration : pod.duration.isFinite = true) (ht : t.isNaN = false)
    (hadmits : l.canAdmit pod.requests t = true) : (l.host pod t).Regular :=
  (h.advance t).start hrequest (Binary64.isNaN_add_of_isFinite ht hduration) (canAdmit_iff.1 hadmits)

/-- What a ledger in order admits is within its capacity. -/
theorem fits_of_refusal?_eq_none (h : l.Regular) (hr : request.WholeCores)
    (hfit : l.refusal? request = none) : request.shortage? l.capacity = none := by
  rw [refusal?, Resources.shortage?_eq_none_iff hr h.cpu.available] at hfit
  rw [Resources.shortage?_eq_none_iff hr h.cpu.capacity]
  obtain ⟨hcpu, hgpu, hmemory⟩ := hfit
  exact ⟨hcpu.trans h.cpu.available_le, hgpu.trans h.gpu.available_le,
    hmemory.trans h.memory.available_le⟩

/-- An empty ledger in order admits exactly what is within its capacity. -/
theorem refusal?_eq_none_iff (h : l.Regular) (hr : request.WholeCores) (hempty : l.pods = []) :
    l.refusal? request = none ↔ request.shortage? l.capacity = none := by
  rw [refusal?, Resources.shortage?_eq_none_iff hr h.cpu.available,
    Resources.shortage?_eq_none_iff hr h.cpu.capacity, ← h.cpu.available_eq hempty,
    ← h.gpu.available_eq hempty, ← h.memory.available_eq hempty]

/-- A ledger in order is free at a number. -/
theorem earliestFree_isNaN (h : l.Regular) : l.earliestFree.isNaN = false :=
  earliestFree_isNaN_of_finish h.finish

/-- An active node whose ledger is in order and empty at an instant could host exactly what it admits. -/
theorem couldHost_iff_canAdmit (h : l.Regular) (hr : request.WholeCores) (hactive : l.isActive = true)
    {t : Seconds} (hempty : (l.advance t).pods = []) :
    l.couldHost request = true ↔ l.canAdmit request t = true := by
  rw [canAdmit_iff, (h.advance t).refusal?_eq_none_iff hr hempty, capacity_advance,
    couldHost_iff hr h.cpu.capacity]
  exact ⟨fun hcould => hcould.2, fun hfits => ⟨hactive, hfits⟩⟩

end Regular

/-! ### Accepted assignments -/

/-- An assignment that is accepted starts the pod on the ledger advanced to its start. -/
theorem assign_of_ok {l : Ledger} {id : Nat} {duration : Seconds} {request : Resources}
    {start finish : Seconds} (h : (l.assign id duration request start).2 = .ok finish) :
    (l.advance start).refusal? request = none ∧ (l.assign id duration request start).1 =
      (l.advance start).start ⟨start + duration, id, request⟩ := by
  rw [assign] at h ⊢
  cases hrefusal : (l.advance start).refusal? request with
  | none => exact ⟨rfl, rfl⟩
  | some refusal =>
    rw [hrefusal] at h
    cases h

/-- The ledgers of nodes of whole cores that are reached from idle ones by accepted assignments of whole
cores with finite times. -/
inductive Reached : Ledger → Prop where
  /-- Nothing was assigned yet. -/
  | idle (name : String) {capacity : Resources} (hcapacity : capacity.WholeCores) :
    Reached (.idle name capacity)
  /-- One more assignment was accepted. -/
  | assign {l : Ledger} {id : Nat} {duration : Seconds} {request : Resources} {start finish : Seconds}
    (h : Reached l) (hrequest : request.WholeCores) (hduration : duration.isFinite = true)
    (hstart : start.isFinite = true)
    (haccepted : (l.assign id duration request start).2 = .ok finish) :
    Reached (l.assign id duration request start).1

/-- Accepted assignments keep ledgers in order. -/
theorem Reached.regular {l : Ledger} (h : l.Reached) : l.Regular := by
  induction h with
  | idle name hcapacity => exact .idle name hcapacity
  | @assign l id duration request start finish _ hrequest hduration hstart haccepted ih =>
    obtain ⟨hfit, heq⟩ := assign_of_ok haccepted
    have hfinish := Binary64.isNaN_add_of_isFinite (Binary64.isNaN_of_isFinite hstart) hduration
    rw [heq]
    exact (ih.advance start).start hrequest hfinish hfit

end Ledger

end PodPlacement
