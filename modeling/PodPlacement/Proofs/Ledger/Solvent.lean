import PodPlacement.Proofs.Ledger.Balance
import PodPlacement.Proofs.Number.Monotone
import PodPlacement.Proofs.Placement.Trial

/-! # Solvent ledgers

Whatever is asked of a ledger, what it has available is never negative. So as long as pods are only
started on it, less and less is available, and a request that was declined stays declined.

A pod that finishes as soon as it starts gives its request back at the next advance. Of GPUs and memory
there is as much as before then. Of CPU there can be more: the tolerance lets a ledger give out more than
it has, and at zero the difference is cut.

* `Resources.nonneg_ofAmounts` — the CPU of resources is an amount, whatever they are made of.
* `Reachable.solvent` — all ledgers that advancing and assigning lead to are solvent.
* `Resources.shortage?_eq_none_of_within` — a smaller request fits into more resources.
* `Resources.foldl_add_within` — some of the summands of a sum give no more than all of them.
* `Resources.RaisedBy` — giving out and taking back leaves more CPU than there was; never for whole cores.
* `Solvent.canAdmit_host` — hosting a pod does not make a ledger admit what it declined, unless the pod
  leaves at once and leaves more CPU than there was. -/

namespace PodPlacement

/-! ### Comparing amounts -/

namespace Resources

/-- Whatever resources are made of, their CPU is an amount: what is negative or no number counts as zero. -/
theorem nonneg_ofAmounts (cpu : Cores) (gpu : Gpus) (memory : Mebibytes) : 0 ≤ (ofAmounts cpu gpu memory).cpu :=
  Binary64.le_maxNum_right _ rfl

/-- What is left after taking a request away is an amount, even if there was less than that. -/
theorem nonneg_sub (a r : Resources) : 0 ≤ (a - r).cpu := Binary64.le_maxNum_right _ rfl

/-- No amount exceeds the matching one, without any tolerance. -/
structure Within (r r' : Resources) : Prop where
  /-- The CPU does not. -/
  cpu : r.cpu ≤ r'.cpu
  /-- The GPUs do not. -/
  gpu : r.gpu ≤ r'.gpu
  /-- The memory does not. -/
  memory : r.memory ≤ r'.memory

/-- The tolerance keeps the order. -/
theorem add_tolerance_le {x y : Cores} (h : x ≤ y) : x + cpuTolerance ≤ y + cpuTolerance :=
  Binary64.add_le_add_right h Binary64.tolerance_small.1

/-- A smaller request fits into more resources. -/
theorem shortage?_eq_none_of_within {r r' a a' : Resources} (hr : r.Within r') (ha : a'.Within a)
    (h : r'.shortage? a' = none) : r.shortage? a = none := by
  rw [shortage?_eq_none] at h ⊢
  obtain ⟨hcpu, hgpu, hmemory⟩ := h
  refine ⟨?_, hr.gpu.trans (hgpu.trans ha.gpu), hr.memory.trans (hmemory.trans ha.memory)⟩
  intro hshort
  exact hcpu (Binary64.lt_of_le_of_lt (add_tolerance_le ha.cpu) (Binary64.lt_of_lt_of_le hshort hr.cpu))

/-- Resources with an amount of CPU are within themselves. -/
theorem within_self {r : Resources} (h : 0 ≤ r.cpu) : r.Within r :=
  ⟨Binary64.le_refl (Binary64.isNaN_of_le_right h), Nat.le_refl _, Nat.le_refl _⟩

/-- More added to more gives no less. -/
theorem add_within_add {a b r : Resources} (ha : 0 ≤ a.cpu) (hr : 0 ≤ r.cpu) (h : a.Within b) :
    (a + r).Within (b + r) := by
  refine ⟨Binary64.add_le_add_of_nonneg ha h.cpu hr, ?_, ?_⟩
  · have hgpu := Capped.le_iff_val.1 h.gpu
    rw [Capped.le_iff_val, gpu_add, gpu_add, Capped.val_add, Capped.val_add]
    omega
  · have hmemory := Capped.le_iff_val.1 h.memory
    rw [Capped.le_iff_val, memory_add, memory_add, Capped.val_add, Capped.val_add]
    omega

/-- Adding an amount gives no less. -/
theorem within_add_right {a r : Resources} (ha : 0 ≤ a.cpu) (hr : 0 ≤ r.cpu) : a.Within (a + r) := by
  refine ⟨Binary64.le_add_right ha hr, ?_, ?_⟩
  · have hlimit := a.gpu.val_le
    rw [Capped.le_iff_val, gpu_add, Capped.val_add]
    omega
  · have hlimit := a.memory.val_le
    rw [Capped.le_iff_val, memory_add, Capped.val_add]
    omega

/-- What is within something that is within a third is within that. -/
theorem Within.trans {a b c : Resources} (hab : a.Within b) (hbc : b.Within c) : a.Within c :=
  ⟨Binary64.le_trans hab.cpu hbc.cpu, Nat.le_trans hab.gpu hbc.gpu, Nat.le_trans hab.memory hbc.memory⟩

/-- Added to less, a part of some amounts gives no more than all of them added to more. -/
theorem foldl_add_within {rs rs' : List Resources} (hsub : rs.Sublist rs')
    (hrs : ∀ r ∈ rs', 0 ≤ r.cpu) {a b : Resources} (ha : 0 ≤ a.cpu) (h : a.Within b) :
    (rs.foldl (· + ·) a).Within (rs'.foldl (· + ·) b) := by
  have hb : ∀ {a b : Resources}, 0 ≤ a.cpu → a.Within b → 0 ≤ b.cpu :=
    fun ha h => Binary64.le_trans ha h.cpu
  induction hsub generalizing a b with
  | slnil => exact h
  | cons r _ ih =>
    obtain ⟨hr, hrs⟩ := List.forall_mem_cons.1 hrs
    exact ih hrs ha (h.trans (within_add_right (hb ha h) hr))
  | cons_cons r _ ih =>
    obtain ⟨hr, hrs⟩ := List.forall_mem_cons.1 hrs
    exact ih hrs (Binary64.add_nonneg ha hr) (add_within_add ha hr h)

/-- Taking a request away leaves no more than there was. -/
theorem sub_within {a r : Resources} (ha : 0 ≤ a.cpu) (hr : 0 ≤ r.cpu) : (a - r).Within a :=
  ⟨Binary64.maxNum_sub_zero_le ha hr, Nat.sub_le _ _, Nat.sub_le _ _⟩

/-- Giving a request out and taking it back leaves more CPU than there was. -/
def RaisedBy (a r : Resources) : Prop := a.cpu < (a - r + r).cpu

instance (a r : Resources) : Decidable (a.RaisedBy r) := inferInstanceAs (Decidable (_ < _))

-- A request within the tolerance leaves slightly more than one core.
example : (ofCpu 1).RaisedBy (ofCpu 1.0000000009) := by decide +kernel

/-- Unless it leaves more CPU, giving an admitted request out and taking it back leaves no more than there
was. -/
theorem sub_add_within {a r : Resources} (ha : 0 ≤ a.cpu) (hr : 0 ≤ r.cpu)
    (hfit : r.shortage? a = none) (hraised : ¬ a.RaisedBy r) : (a - r + r).Within a := by
  obtain ⟨-, hgpu, hmemory⟩ := shortage?_eq_none.1 hfit
  refine ⟨?_, ?_, ?_⟩
  · have hnum := Binary64.isNaN_of_le_right (Binary64.add_nonneg (nonneg_sub a r) hr)
    by_contra hle
    exact hraised ((Binary64.not_le_iff hnum (Binary64.isNaN_of_le_right ha)).1 hle)
  · rw [Capped.le_iff_val, gpu_add, gpu_sub, Capped.val_add, Capped.val_sub, Nat.sub_add_cancel hgpu]
    exact Nat.min_le_left _ _
  · rw [Capped.le_iff_val, memory_add, memory_sub, Capped.val_add, Capped.val_sub,
      Nat.sub_add_cancel hmemory]
    exact Nat.min_le_left _ _

/-- Whole amounts are given back as they were taken. -/
theorem WholeCores.not_raisedBy {a r : Resources} (ha : a.WholeCores) (hr : r.WholeCores)
    (hfit : r.shortage? a = none) : ¬ a.RaisedBy r := by
  obtain ⟨i, hi, ha⟩ := ha
  obtain ⟨k, hk, hr⟩ := hr
  have hle : k ≤ i := by
    have hshort := (shortage?_eq_none.1 hfit).1
    rwa [ha.add_tolerance_lt_iff hr hi, Nat.not_lt] at hshort
  have hback : (a - r + r).cpu.IsCount i := by
    have hsum := (ha.sub hr hle (by omega)).add hr (by omega)
    rwa [Nat.sub_add_cancel hle] at hsum
  intro hraised
  rw [RaisedBy, Binary64.lt_iff, ha.2, hback.2] at hraised
  exact Int.lt_irrefl _ hraised.2.2

end Resources

namespace Ledger

/-! ### Solvency -/

/-- A ledger that never owes anything: it is sorted, and no CPU amount on it is negative. -/
structure Solvent (l : Ledger) : Prop where
  /-- The ledger is sorted. -/
  sorted : l.Sorted
  /-- What is available is an amount. -/
  available : 0 ≤ l.available.cpu
  /-- What the pods hold are amounts. -/
  requests : ∀ p ∈ l.pods, 0 ≤ p.request.cpu

/-- Taking requests back leaves an amount. -/
theorem nonneg_foldl_add {ps : List RunningPod} (hps : ∀ p ∈ ps, 0 ≤ p.request.cpu) {a : Resources}
    (ha : 0 ≤ a.cpu) : 0 ≤ (ps.foldl (fun a p => a + p.request) a).cpu := by
  induction ps generalizing a with
  | nil => exact ha
  | cons p ps ih =>
    obtain ⟨hp, hps⟩ := List.forall_mem_cons.1 hps
    exact ih hps (Binary64.add_nonneg ha hp)

namespace Solvent

variable {l : Ledger}

/-- An idle ledger is solvent. -/
theorem idle (name : String) {capacity : Resources} (h : 0 ≤ capacity.cpu) :
    (Ledger.idle name capacity).Solvent :=
  ⟨sorted_idle name capacity, h, fun _ hp => absurd hp List.not_mem_nil⟩

/-- Advancing keeps a ledger solvent. -/
theorem advance (h : l.Solvent) (t : Seconds) : (l.advance t).Solvent := by
  refine ⟨h.sorted.advance t, ?_, fun p hp => h.requests p (mem_pods_of_mem_advance hp)⟩
  rw [available_advance]
  apply nonneg_foldl_add _ h.available
  intro p hp
  exact h.requests p ((completedBy_perm l t).subset (List.mem_append_left _ hp))

/-- Starting a pod keeps a ledger solvent, whether it has enough or not. -/
theorem start (h : l.Solvent) {p : RunningPod} (hp : 0 ≤ p.request.cpu) : (l.start p).Solvent := by
  refine ⟨h.sorted.start p, Resources.nonneg_sub _ _, ?_⟩
  intro q hq
  rcases mem_pods_start.1 hq with rfl | hq
  · exact hp
  · exact h.requests q hq

/-- Hosting a pod keeps a ledger solvent. -/
theorem host (h : l.Solvent) {pod : Pod} (hpod : 0 ≤ pod.requests.cpu) (t : Seconds) :
    (l.host pod t).Solvent := (h.advance t).start hpod

end Solvent

/-- The ledgers that advancing and assigning lead to, from idle nodes whose capacity is an amount, as
`ofAmounts` makes it. An assignment may be refused. -/
inductive Reachable : Ledger → Prop where
  /-- Nothing was done yet. -/
  | idle (name : String) {capacity : Resources} (hcapacity : 0 ≤ capacity.cpu) :
    Reachable (.idle name capacity)
  /-- The ledger was advanced. -/
  | advance {l : Ledger} (h : Reachable l) (t : Seconds) : Reachable (l.advance t)
  /-- A pod was assigned. -/
  | assign {l : Ledger} (h : Reachable l) (id : Nat) (duration : Seconds) {request : Resources}
    (hrequest : 0 ≤ request.cpu) (start : Seconds) : Reachable (l.assign id duration request start).1

/-- Every ledger in use is solvent. -/
theorem Reachable.solvent {l : Ledger} (h : l.Reachable) : l.Solvent := by
  induction h with
  | idle name hcapacity => exact .idle name hcapacity
  | advance _ t ih => exact ih.advance t
  | @assign l _ id duration request hrequest start ih =>
    rw [Ledger.assign]
    split
    · exact ih.advance start
    · exact (ih.advance start).start hrequest

/-! ### Declined requests -/

/-- A solvent ledger that admits a request admits a smaller one. -/
theorem Solvent.canAdmit_of_within {l : Ledger} (h : l.Solvent) {r r' : Resources} {t : Seconds}
    (hwithin : r.Within r') (hadmits : l.canAdmit r' t = true) : l.canAdmit r t = true := by
  rw [canAdmit_iff] at hadmits ⊢
  exact Resources.shortage?_eq_none_of_within hwithin
    (Resources.within_self (h.advance t).available) hadmits

/-- What is available after hosting a pod and advancing again: the pod is still there, or it has left. -/
theorem Sorted.available_host_advance {l : Ledger} (h : l.Sorted) (pod : Pod) (t : Seconds) :
    ((l.host pod t).advance t).available =
      if t + pod.duration ≤ t then (l.advance t).available - pod.requests + pod.requests
      else (l.advance t).available - pod.requests := by
  have hsorted : (l.host pod t).Sorted := (h.advance t).start _
  have hcompleted := (hsorted.completedBy_perm_filter t).trans ((pods_host_perm l pod t).filter _)
  have hstay : (l.advance t).pods.filter (fun p => decide (p.finish ≤ t)) = [] := by
    rw [List.filter_eq_nil_iff]
    intro p hp
    simpa using h.not_finish_le hp
  rw [available_advance]
  by_cases hleaves : t + pod.duration ≤ t
  · -- Of the pods that run after the start, only the new one has finished.
    rw [List.filter_cons_of_pos (by simpa using hleaves), hstay, List.perm_singleton] at hcompleted
    rw [hcompleted, if_pos hleaves]
    rfl
  · rw [List.filter_cons_of_neg (by simpa using hleaves), hstay, List.perm_nil] at hcompleted
    rw [hcompleted, if_neg hleaves]
    rfl

/-- Hosting a pod does not make a solvent ledger admit what it declined, unless the pod leaves at once
and leaves more CPU than there was. -/
theorem Solvent.canAdmit_host {l : Ledger} (h : l.Solvent) {pod : Pod} {request : Resources} {t : Seconds}
    (hpod : 0 ≤ pod.requests.cpu) (hrequest : 0 ≤ request.cpu)
    (hadmits : l.canAdmit pod.requests t = true) (hdeclined : l.canAdmit request t = false) :
    (l.host pod t).canAdmit request t = false ∨
      (t + pod.duration ≤ t ∧ (l.advance t).available.RaisedBy pod.requests) := by
  by_cases hraised : t + pod.duration ≤ t ∧ (l.advance t).available.RaisedBy pod.requests
  · exact .inr hraised
  left
  -- Otherwise no more is available than when the request was declined.
  have havailable := (h.advance t).available
  have hwithin : ((l.host pod t).advance t).available.Within (l.advance t).available := by
    rw [h.sorted.available_host_advance]
    by_cases hleaves : t + pod.duration ≤ t
    · rw [if_pos hleaves]
      exact Resources.sub_add_within havailable hpod (canAdmit_iff.1 hadmits)
        fun hmore => hraised ⟨hleaves, hmore⟩
    · rw [if_neg hleaves]
      exact Resources.sub_within havailable hpod
  rw [canAdmit_eq_false] at hdeclined ⊢
  intro hadmitted
  exact hdeclined
    (Resources.shortage?_eq_none_of_within (Resources.within_self hrequest) hwithin hadmitted)

end Ledger

end PodPlacement
