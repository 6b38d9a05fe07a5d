import PodPlacement.Proofs.Ledger.Balance
import PodPlacement.Proofs.Policy
import PodPlacement.Proofs.Simulation.Events
import PodPlacement.Proofs.Simulation.Termination

/-! # The order of the input

Pods with distinct numbers are arranged before the simulation begins, and that undoes every order in
which they may have been given. If the ready pods are moreover tried in the order of their submission,
it does not matter either how they are arranged: two states that differ in that alone stay so.

* `step_rearrange` — the arrangement of the pending pods changes nothing else.
* `runPolicy_perm` — the outcome depends neither on the order of the pods nor, when they are tried in the
  order of their submission, on the order of the jobs. -/

namespace PodPlacement

namespace Simulation

variable {n : Nat} {policy : Policy} {active : List (Fin n)}

/-- The order of jobs plays no part in a pass. -/
theorem pass_jobOrder (policy : Policy) (order : JobOrder) (clock : Seconds) (pods : List Pod)
    (cluster : Cluster n) (schedule : Schedule) :
    pass { policy with jobOrder := order } active clock pods cluster schedule =
      pass policy active clock pods cluster schedule := by
  induction pods generalizing cluster schedule with
  | nil => rfl
  | cons pod pods ih => simp only [pass, ih]

/-- The state with its pending pods arranged differently. -/
def State.rearrange (s : State n) (pending : List Pod) : State n := { s with pending := pending }

/-- Two states are alike but for the arrangement of the pending pods, which have distinct numbers. -/
def State.Rearranged (s t : State n) : Prop :=
  ∃ pending, s.pending.Perm pending ∧ (s.pending.map Pod.id).Nodup ∧ t = s.rearrange pending

/-- If pods are tried in the order of their submission, a step does the same for pending pods arranged
differently. -/
theorem step_rearrange (hfifo : policy.podOrder = .fifo) (order : JobOrder) {s s' t : State n}
    {status? : Option Status} (hst : s.Rearranged t) (h : step policy active s = .ok (s', status?)) :
    ∃ t', step { policy with jobOrder := order } active t = .ok (t', status?) ∧ s'.Rearranged t' := by
  obtain ⟨pending, hperm, hids, rfl⟩ := hst
  have hready : policy.podOrder.readyPods s.pending s.clock =
      policy.podOrder.readyPods pending s.clock := by
    rw [hfifo]
    exact PodOrder.readyPods_fifo_eq_of_perm hids hperm s.clock
  have hnil : pending = [] ↔ s.pending = [] := by
    rw [← List.length_eq_zero_iff, ← List.length_eq_zero_iff, hperm.length_eq]
  -- The same pods are ready in the same order, so both passes are one and the same.
  have hpass (schedule : Schedule) : pass { policy with jobOrder := order } active s.clock
      (policy.podOrder.readyPods pending s.clock) s.cluster schedule =
        pass policy active s.clock (policy.podOrder.readyPods s.pending s.clock) s.cluster schedule := by
    rw [pass_jobOrder, hready]
  cases step_eq_ok.1 h with
  | completed hpending =>
    exact ⟨_, step_eq_ok.2 (.completed (hnil.2 hpending)), pending, hperm, hids, rfl⟩
  | noActiveNodes hpending hactive =>
    exact ⟨_, step_eq_ok.2 (.noActiveNodes (mt hnil.1 hpending) hactive), pending, hperm, hids, rfl⟩
  | placed hpending hactive hfirst hplaced =>
    rw [← hpass] at hfirst
    exact ⟨_, step_eq_ok.2 (.placed (mt hnil.1 hpending) hactive hfirst hplaced), _, hperm.filter _,
      hids.sublist (List.filter_sublist.map Pod.id), rfl⟩
  | waited hpending hactive hfirst hevent =>
    rw [← hpass] at hfirst
    rw [nextEvent?_perm hperm] at hevent
    exact ⟨_, step_eq_ok.2 (.waited (mt hnil.1 hpending) hactive hfirst hevent), pending, hperm, hids, rfl⟩
  | stuck hpending hactive hfirst hevent =>
    rw [← hpass] at hfirst
    rw [nextEvent?_perm hperm] at hevent
    rw [hperm.length_eq]
    exact ⟨_, step_eq_ok.2 (.stuck (mt hnil.1 hpending) hactive hfirst hevent), pending, hperm, hids, rfl⟩

/-- Pods with distinct numbers may be given in any order: the schedule, the status and all else are the
same. If pods are tried in the order of their submission, the jobs may be ordered in any way as well. -/
theorem runPolicy_perm (policy : Policy) (nodes : List Ledger) {pods pods' : List Pod}
    (hids : (pods.map Pod.id).Nodup) (hperm : pods.Perm pods') : ∃ outcome,
      runPolicy policy nodes pods = .ok outcome ∧ runPolicy policy nodes pods' = .ok outcome ∧
        (policy.podOrder = .fifo → ∀ order,
          runPolicy { policy with jobOrder := order } nodes pods' =
            .ok { outcome with policy := { policy with jobOrder := order } }) := by
  obtain ⟨s, status, hends, -⟩ := ends_spec policy nodes pods
  have harrange (order : JobOrder) := order.arrange_eq_of_perm hids hperm
  have hlimit : passLimit (positions nodes) pods' = passLimit (positions nodes) pods := by
    rw [passLimit, passLimit, hperm.length_eq]
  refine ⟨_, hends.runPolicy_eq, ?_, ?_⟩
  · -- Arranged, the pods are the same.
    have hends' : Ends policy nodes pods' s status := by
      rw [Ends, hlimit, initial, ← harrange]
      exact hends
    rw [hends'.runPolicy_eq, hperm.length_eq]
  · intro hfifo order
    have hpending : (initial policy (positions nodes) pods).pending.Perm (order.arrange pods) :=
      (arrange_perm policy.jobOrder pods).trans (arrange_perm order pods).symm
    have hids' := ((arrange_perm policy.jobOrder pods).map Pod.id).nodup_iff.2 hids
    obtain ⟨_, hsteps, pending, -, -, rfl⟩ :=
      steps_simulate (step_rearrange hfifo order) _ ⟨_, hpending, hids', rfl⟩ hends
    have hends' : Ends { policy with jobOrder := order } nodes pods' (s.rearrange pending) status := by
      rw [Ends, hlimit, initial, ← harrange]
      exact hsteps
    rw [hends'.runPolicy_eq, hperm.length_eq]
    rfl

/-- Two pods may be swapped, and the jobs they belong to be ordered in any way. -/
theorem runPolicy_perm_swap : ∃ outcome,
    runPolicy Heuristic.firstFit.policy [.idle "a" (.ofCpu 2)] [.ofCores 1 0 10 1, .ofCores 2 5 10 2] =
        .ok outcome ∧
      runPolicy Heuristic.firstFit.policy [.idle "a" (.ofCpu 2)]
          [.ofCores 2 5 10 2, .ofCores 1 0 10 1] = .ok outcome ∧
      ∀ order, runPolicy { Heuristic.firstFit.policy with jobOrder := order } [.idle "a" (.ofCpu 2)]
          [.ofCores 2 5 10 2, .ofCores 1 0 10 1] =
        .ok { outcome with policy := { Heuristic.firstFit.policy with jobOrder := order } } := by
  have hids : ([Pod.ofCores 1 0 10 1, Pod.ofCores 2 5 10 2].map Pod.id).Nodup := by decide
  obtain ⟨outcome, hgiven, hswapped, hjobs⟩ := runPolicy_perm Heuristic.firstFit.policy
    [.idle "a" (.ofCpu 2)] hids (.swap _ _ [])
  exact ⟨outcome, hgiven, hswapped, hjobs rfl⟩

end Simulation

end PodPlacement
