import PodPlacement.Proofs.Ledger.Balance
import PodPlacement.Proofs.Simulation.Timeline

/-! # Schedules keep to the capacities

A balanced ledger never holds more than its capacity, so neither do the records that run on a node at
one instant.

* `Runs.sum_runningOn_le` — the records on a node keep to its capacity under every meter.
* `runPolicy_within_capacity` — at every instant the records on a node are within its capacity. -/

namespace PodPlacement

namespace Simulation

/-- The records of a simulation from idle nodes are within the capacities under every meter that is
exact for the pods and the nodes. -/
theorem Runs.sum_runningOn_le {policy : Policy} {nodes : List Ledger} {pods : List Pod}
    {log : List (Attempt nodes.length)} {s : State nodes.length} {status : Status}
    (h : Runs policy (activeNodes (positions nodes)) (initial policy (positions nodes) pods) log s status)
    (m : Meter) (hidle : ∀ l ∈ nodes, l.IsIdle) (hnames : (nodes.map Ledger.name).Nodup)
    (hcapacity : ∀ l ∈ nodes, m.Exact l.capacity) (hrequests : ∀ pod ∈ pods, m.Exact pod.requests)
    (j : Fin nodes.length) (t : Seconds) :
    ((s.schedule.runningOn (positions nodes)[j].name t).map fun r => m.amount r.requests).sum ≤
      m.amount (positions nodes)[j].capacity := by
  have hbalanced : ∀ l ∈ nodes, l.Balanced m := by
    intro l hl
    rw [hidle l hl]
    exact .idle _ (hcapacity l hl)
  obtain ⟨-, -, l, hl, hsame, hsub⟩ := h.exists_requests_subperm (Ledger.invariant_balanced m) hidle
    hnames hbalanced hrequests j t
  have hle := m.sum_amount_le hsub
  rw [List.map_map] at hle
  calc ((s.schedule.runningOn (positions nodes)[j].name t).map fun r => m.amount r.requests).sum
      ≤ (l.requests.map m.amount).sum := hle
    _ = m.held l.pods := by rw [Ledger.requests, List.map_map]; rfl
    _ ≤ m.amount (positions nodes)[j].capacity := by rw [← hsame]; exact hl.held_le

/-- From idle nodes with distinct names, every policy makes a schedule in which the records on a node
are within its capacity at every instant: in GPUs and memory always, and in CPU if all amounts are whole
cores. -/
theorem runPolicy_within_capacity (policy : Policy) (nodes : List Ledger) (pods : List Pod)
    (hidle : ∀ l ∈ nodes, l.IsIdle) (hnames : (nodes.map Ledger.name).Nodup) : ∃ outcome,
      runPolicy policy nodes pods = .ok outcome ∧ ∀ l ∈ nodes, ∀ t : Seconds,
        ((outcome.schedule.runningOn l.name t).map fun r => r.requests.gpu.val).sum ≤ l.capacity.gpu.val ∧
        ((outcome.schedule.runningOn l.name t).map fun r => r.requests.memory.val).sum ≤
          l.capacity.memory.val ∧
        ((∀ l ∈ nodes, l.capacity.WholeCores) → (∀ pod ∈ pods, pod.requests.WholeCores) →
          ((outcome.schedule.runningOn l.name t).map fun r => r.requests.cpu.toUnits).sum ≤
            l.capacity.cpu.toUnits) := by
  obtain ⟨s, status, hends, hruns⟩ := ends_spec policy nodes pods
  refine ⟨_, hends.runPolicy_eq, ?_⟩
  intro l hl t
  obtain ⟨j, hj, rfl⟩ := List.mem_iff_getElem.1 hl
  refine ⟨?_, ?_, ?_⟩
  · exact hruns.sum_runningOn_le .gpu hidle hnames (fun _ _ => trivial) (fun _ _ => trivial) ⟨j, hj⟩ t
  · exact hruns.sum_runningOn_le .memory hidle hnames (fun _ _ => trivial) (fun _ _ => trivial) ⟨j, hj⟩ t
  · intro hcapacity hrequests
    have hle := hruns.sum_runningOn_le .cpu hidle hnames hcapacity hrequests ⟨j, hj⟩ t
    -- The records are those of given pods, so their amounts are whole as well.
    have hwhole : ∀ r ∈ (s.schedule.runningOn (positions nodes)[j].name t).map Record.requests,
        r.WholeCores := by
      intro r hr
      obtain ⟨record, hrecord, rfl⟩ := List.mem_map.1 hr
      have hmem : record ∈ s.schedule.records := (List.mem_filter.1 (List.mem_filter.1 hrecord).1).1
      rw [hruns.records_eq] at hmem
      obtain ⟨b, hb, rfl⟩ := List.mem_map.1 hmem
      exact hrequests b.pod ((arrange_perm policy.jobOrder pods).subset (hruns.of_mem_bookings hb).1)
    have hsum := Meter.sum_toUnits hwhole
    rw [List.map_map, List.map_map] at hsum
    rw [Meter.toUnits_eq (hcapacity _ hl)]
    exact (Int.le_of_eq hsum).trans (Int.ofNat_le.2 hle)

/-- Two nodes, with two cores and with one. -/
def pairNodes : List Ledger := [.idle "a" (.ofCpu (.ofNat 2)), .idle "b" (.ofCpu (.ofNat 1))]

/-- Three pods that do not run all at once on the two nodes. -/
def pairPods : List Pod := [.ofCores 1 0 10 1, .ofCores 2 5 10 2, .ofCores 3 7 1 1]

/-- The three pods are within the capacities of the two nodes at every instant. -/
theorem runPolicy_within_capacity_pair : ∃ outcome,
    runPolicy Heuristic.shortestJobFirst.policy pairNodes pairPods = .ok outcome ∧
      ∀ l ∈ pairNodes, ∀ t : Seconds,
        ((outcome.schedule.runningOn l.name t).map fun r => r.requests.gpu.val).sum ≤ l.capacity.gpu.val ∧
        ((outcome.schedule.runningOn l.name t).map fun r => r.requests.memory.val).sum ≤
          l.capacity.memory.val ∧
        ((outcome.schedule.runningOn l.name t).map fun r => r.requests.cpu.toUnits).sum ≤
          l.capacity.cpu.toUnits := by
  obtain ⟨outcome, hrun, hwithin⟩ := runPolicy_within_capacity
    Heuristic.shortestJobFirst.policy pairNodes pairPods (by simp [pairNodes]) (by decide)
  have hcapacity : ∀ l ∈ pairNodes, l.capacity.WholeCores := by
    simp [pairNodes, Ledger.idle, Resources.wholeCores_ofCpu]
  have hrequests : ∀ pod ∈ pairPods, pod.requests.WholeCores := by
    simp [pairPods, Pod.ofCores, Resources.wholeCores_ofCpu]
  refine ⟨outcome, hrun, ?_⟩
  intro l hl t
  obtain ⟨hgpu, hmemory, hcpu⟩ := hwithin l hl t
  exact ⟨hgpu, hmemory, hcpu hcapacity hrequests⟩

end Simulation

end PodPlacement
