import PodPlacement.Proofs.Ledger.Drift
import PodPlacement.Proofs.Simulation.Capacity

/-! # What the audit finds

The audit sums up what runs on a node from the records alone. In GPUs and memory it never finds too much.
In CPU it compares with a tolerance, and so do the ledgers, at every admission: what is available is cut
at zero, so a ledger forgets by how much a request went over, and the tolerance is granted once more to
the next one. The audit grants it once. Hence it finds nothing as long as no request needs the tolerance
for more than rounding errors: if all amounts are whole cores, or whole parts of a core that are larger
than the tolerance.

* `mem_violations`, `violations_congr` — violations, and what they depend on.
* `Runs.usage_le` — the sums of the audit under a meter that is exact.
* `Runs.exists_account` — the sums of the audit and the operations of a ledger.
* `Runs.usage_cpu_le_of_measures`, `Runs.usage_cpu_value_le` — parts of cores fit; any amounts nearly.
* `Audited`, `runPolicy_audited` — what the audit finds in the schedule of a simulation.
* `exists_violation_halfPods` — it can find something. -/

namespace PodPlacement

namespace Audit

variable {schedule : Schedule} {nodes : List Ledger}

/-- What the audit sums up is what the records hold that run at the instant. -/
theorem usage_recordsOn (schedule : Schedule) (node : String) (t : Seconds) :
    usage (schedule.recordsOn node) t =
      .sum ((schedule.runningOn node t).map Record.requests) := rfl

/-- A violation is about a given node and an instant at which its records do not fit. -/
theorem mem_violations {v : Violation} (h : v ∈ violations schedule nodes) :
    ∃ l ∈ nodes, ∃ t, v = ⟨l.name, t, usage (schedule.recordsOn l.name) t, l.capacity⟩ ∧
      ¬ (usage (schedule.recordsOn l.name) t).fitsWithin l.capacity = true := by
  obtain ⟨l, hl, hv⟩ := List.mem_flatMap.1 h
  obtain ⟨t, -, ht⟩ := List.mem_filterMap.1 hv
  refine ⟨l, hl, t, ?_⟩
  by_cases hfits : (usage (schedule.recordsOn l.name) t).fitsWithin l.capacity = true
  · simp [hfits] at ht
  · simp only [hfits, Bool.false_eq_true, if_false, Option.some.injEq] at ht
    exact ⟨ht.symm, hfits⟩

/-- The audit finds nothing if everything fits at every instant. -/
theorem violations_eq_nil (h : ∀ l ∈ nodes, ∀ t,
    (usage (schedule.recordsOn l.name) t).fitsWithin l.capacity = true) :
    violations schedule nodes = [] := by
  rw [List.eq_nil_iff_forall_not_mem]
  intro v hv
  obtain ⟨l, hl, t, -, hnot⟩ := mem_violations hv
  exact hnot (h l hl t)

/-- The audit looks at the names and the capacities of nodes only. -/
theorem violations_congr {nodes' : List Ledger}
    (h : nodes'.map (fun l => (l.name, l.capacity)) = nodes.map fun l => (l.name, l.capacity)) :
    violations schedule nodes' = violations schedule nodes := by
  have hshape (nodes : List Ledger) : violations schedule nodes =
      (nodes.map fun l => (l.name, l.capacity)).flatMap fun p =>
        violationsOn schedule (.idle p.1 p.2) := by
    rw [List.flatMap_map]
    rfl
  rw [hshape, hshape, h]

end Audit

/-- Whole cores that are within an amount of whole cores are so with the tolerance. -/
theorem Resources.WholeCores.cpu_le {r limit : Resources} (hr : r.WholeCores) (hlimit : limit.WholeCores)
    (hle : Meter.cpu.amount r ≤ Meter.cpu.amount limit) : r.cpu ≤ limit.cpu + cpuTolerance := by
  obtain ⟨i, hi, hr⟩ := hr
  obtain ⟨j, hj, hlimit⟩ := hlimit
  simp only [Meter.cpu, Meter.toNat_toUnits hr, Meter.toNat_toUnits hlimit] at hle
  have hij : i ≤ j := Nat.le_of_mul_le_mul_right hle Binary64.unitsPerOne_pos
  have hnum := (hlimit.toUnits_add_tolerance hj).1
  by_contra hnot
  rw [Binary64.not_le_iff hr.isNaN_eq_false hnum, hlimit.add_tolerance_lt_iff hr hj] at hnot
  omega

/-- A sum that stays within some exact amount is exact. -/
theorem Meter.amount_sum_le (m : Meter) (hzero : m.Exact .zero) (hnone : m.amount .zero = 0)
    {limit : Resources} (hlimit : m.Exact limit) {rs : List Resources} (hrs : ∀ r ∈ rs, m.Exact r)
    (hle : (rs.map m.amount).sum ≤ m.amount limit) :
    m.Exact (.sum rs) ∧ m.amount (.sum rs) ≤ m.amount limit := by
  obtain ⟨hexact, hsum⟩ := m.amount_foldl_add hlimit rs hzero hrs (by rw [hnone]; omega)
  refine ⟨hexact, ?_⟩
  show m.amount (rs.foldl (· + ·) .zero) ≤ _
  rw [hsum, hnone]
  omega

namespace Simulation

section Schedules

variable {policy : Policy} {nodes : List Ledger} {pods : List Pod} {log : List (Attempt nodes.length)}
  {s : State nodes.length} {status : Status}
  (h : Runs policy (activeNodes (positions nodes)) (initial policy (positions nodes) pods) log s status)
  (hidle : ∀ l ∈ nodes, l.IsIdle) (hnames : (nodes.map Ledger.name).Nodup)

include h

/-- The records of a simulation hold what given pods ask for. -/
theorem Runs.exists_pod_of_mem_runningOn {name : String} {t : Seconds} {r : Resources}
    (hr : r ∈ (s.schedule.runningOn name t).map Record.requests) : ∃ pod ∈ pods, pod.requests = r := by
  obtain ⟨record, hrecord, rfl⟩ := List.mem_map.1 hr
  have hmem : record ∈ s.schedule.records := (List.mem_filter.1 (List.mem_filter.1 hrecord).1).1
  rw [h.records_eq] at hmem
  obtain ⟨b, hb, rfl⟩ := List.mem_map.1 hmem
  exact ⟨b.pod, (arrange_perm policy.jobOrder pods).subset (h.of_mem_bookings hb).1, rfl⟩

/-- The nodes at the end of a simulation have the given names and capacities. -/
theorem Runs.map_toList_eq : s.cluster.nodes.toList.map (fun l => (l.name, l.capacity)) =
    nodes.map fun l => (l.name, l.capacity) := by
  refine List.ext_getElem (by simp) ?_
  intro i hi hi'
  rw [List.getElem_map, List.getElem_map, Prod.mk.injEq]
  have hlt : i < nodes.length := by simpa using hi'
  exact ⟨h.name_eq ⟨i, hlt⟩, (h.capacity_eq ⟨i, hlt⟩).1⟩

include hidle hnames

/-- Under a meter that is exact, the sums of the audit are within the capacities. -/
theorem Runs.usage_le (m : Meter) (hzero : m.Exact .zero) (hnone : m.amount .zero = 0)
    (hcapacity : ∀ l ∈ nodes, m.Exact l.capacity) (hrequests : ∀ pod ∈ pods, m.Exact pod.requests)
    {l : Ledger} (hl : l ∈ nodes) (t : Seconds) :
    m.Exact (Audit.usage (s.schedule.recordsOn l.name) t) ∧
      m.amount (Audit.usage (s.schedule.recordsOn l.name) t) ≤ m.amount l.capacity := by
  obtain ⟨j, hj, rfl⟩ := List.mem_iff_getElem.1 hl
  have hle := h.sum_runningOn_le m hidle hnames hcapacity hrequests ⟨j, hj⟩ t
  rw [Audit.usage_recordsOn]
  refine m.amount_sum_le hzero hnone (hcapacity _ hl) ?_ ?_
  · intro r hr
    obtain ⟨pod, hpod, rfl⟩ := h.exists_pod_of_mem_runningOn hr
    exact hrequests pod hpod
  · rw [List.map_map]
    exact hle

/-- In GPUs and memory, the sums of the audit are within the capacities. -/
theorem Runs.usage_le_of_mem {l : Ledger} (hl : l ∈ nodes) (t : Seconds) :
    (Audit.usage (s.schedule.recordsOn l.name) t).gpu.val ≤ l.capacity.gpu.val ∧
      (Audit.usage (s.schedule.recordsOn l.name) t).memory.val ≤ l.capacity.memory.val :=
  ⟨(h.usage_le hidle hnames .gpu trivial rfl (fun _ _ => trivial) (fun _ _ => trivial) hl t).2,
    (h.usage_le hidle hnames .memory trivial rfl (fun _ _ => trivial) (fun _ _ => trivial) hl t).2⟩

/-- If the sums of CPU are within the capacities up to the tolerance, the audit finds nothing. -/
theorem Runs.violations_eq_nil (hcpu : ∀ l ∈ nodes, ∀ t,
    (Audit.usage (s.schedule.recordsOn l.name) t).cpu ≤ l.capacity.cpu + Resources.cpuTolerance) :
    Audit.violations s.schedule nodes = [] := by
  refine Audit.violations_eq_nil ?_
  intro l hl t
  obtain ⟨hgpu, hmemory⟩ := h.usage_le_of_mem hidle hnames hl t
  exact Resources.fitsWithin_iff.2 ⟨hcpu l hl t, hgpu, hmemory⟩

/-- The sums of whole cores are within the capacities. -/
theorem Runs.usage_cpu_le_of_wholeCores (hcapacity : ∀ l ∈ nodes, l.capacity.WholeCores)
    (hrequests : ∀ pod ∈ pods, pod.requests.WholeCores) {l : Ledger} (hl : l ∈ nodes) (t : Seconds) :
    (Audit.usage (s.schedule.recordsOn l.name) t).cpu ≤ l.capacity.cpu + Resources.cpuTolerance := by
  have hzero : Resources.zero.WholeCores :=
    ⟨0, by decide, Binary64.isCount_ofNat (Nat.zero_le _)⟩
  obtain ⟨hwhole, hle⟩ := h.usage_le hidle hnames .cpu hzero (by decide +kernel) hcapacity hrequests hl t
  exact hwhole.cpu_le (hcapacity l hl) hle

/-- An account that holds of idle nodes holds of what the audit sums up at any instant. -/
theorem Runs.exists_account {limit : Nat} {K : Resources → Prop}
    {C : (starts operations : Nat) → (capacity available : Resources) → List Resources → Prop}
    (haccount : Account limit K C) (hbookings : (bookings log).length ≤ limit)
    (hcapacity : ∀ l ∈ nodes, C 0 0 l.capacity l.capacity [])
    (hrequests : ∀ pod ∈ pods, K pod.requests) {l : Ledger} (hl : l ∈ nodes) (t : Seconds) :
    ∃ starts ≤ (bookings log).length, ∃ operations available held,
      operations + held.length = 2 * starts ∧ C starts operations l.capacity available held ∧
        ((s.schedule.runningOn l.name t).map Record.requests).Subperm held := by
  obtain ⟨j, hj, rfl⟩ := List.mem_iff_getElem.1 hl
  have hinit : ∀ l ∈ nodes, 0 ≤ limit → ∃ operations, operations + l.requests.length = 2 * 0 ∧
      C 0 operations l.capacity l.available l.requests := by
    intro l hl _
    rw [hidle l hl]
    exact ⟨0, rfl, hcapacity l hl⟩
  obtain ⟨count, hcount, l, hl', hsame, hsub⟩ := h.exists_requests_subperm haccount.invariant hidle
    hnames hinit hrequests ⟨j, hj⟩ t
  obtain ⟨operations, hops, hC⟩ := hl' (hcount.trans hbookings)
  rw [hsame] at hC
  exact ⟨count, hcount, operations, l.available, l.requests, hops, hC, hsub⟩

/-- The sums of parts of cores are within the capacities up to the tolerance. -/
theorem Runs.usage_cpu_le_of_measures (g : Granularity) (hbookings : (bookings log).length ≤ g.pods)
    (hcapacity : ∀ l ∈ nodes, g.Measures l.capacity) (hrequests : ∀ pod ∈ pods, g.Measures pod.requests)
    {l : Ledger} (hl : l ∈ nodes) (t : Seconds) :
    (Audit.usage (s.schedule.recordsOn l.name) t).cpu ≤ l.capacity.cpu + Resources.cpuTolerance := by
  obtain ⟨starts, hstarts, operations, available, held, hops, hcovers, hsub⟩ :=
    h.exists_account hidle hnames g.account_covers hbookings
      (fun l hl => Granularity.covers_self (hcapacity l hl)) hrequests hl t
  exact hcovers.sum_cpu_le (by omega) hsub

/-- The sums of the audit go over the capacities by a tolerance for each pod and one more at most. -/
theorem Runs.usage_cpu_value_le (p : Precision) {count : Nat}
    (hbookings : (bookings log).length ≤ count) (hcount : count ≤ p.pods)
    (hcapacity : ∀ l ∈ nodes, l.capacity.IsAmount ∧ l.capacity.cpu.value ≤ p.cores)
    (hrequests : ∀ pod ∈ pods, pod.requests.IsAmount) {l : Ledger} (hl : l ∈ nodes) (t : Seconds) :
    (Audit.usage (s.schedule.recordsOn l.name) t).cpu.value ≤
      l.capacity.cpu.value + (count + 1) * Resources.cpuTolerance.value := by
  obtain ⟨starts, hstarts, operations, available, held, hops, hexceeds, hsub⟩ :=
    h.exists_account hidle hnames p.account_exceeds (hbookings.trans hcount)
      (fun l hl => Precision.exceeds_self (hcapacity l hl).1 (hcapacity l hl).2) hrequests hl t
  have hle : starts ≤ count := hstarts.trans hbookings
  refine (hexceeds.sum_cpu_le (hle.trans hcount) hops hsub).trans ?_
  obtain ⟨htolerance, -⟩ := Binary64.value_tolerance_bounds
  have hcast : (starts : ℚ) ≤ count := Nat.cast_le.2 hle
  have hscaled := mul_le_mul_of_nonneg_right hcast (le_trans (by norm_num) htolerance)
  linarith

end Schedules

/-- Amounts of CPU that add up in doubles: whole cores, or parts of a core that are larger than the
tolerance, if there are not too many pods. -/
def AddUp (nodes : List Ledger) (pods : List Pod) : Prop :=
  ((∀ l ∈ nodes, l.capacity.WholeCores) ∧ ∀ pod ∈ pods, pod.requests.WholeCores) ∨
    ∃ g : Granularity, pods.length ≤ g.pods ∧ (∀ l ∈ nodes, g.Measures l.capacity) ∧
      ∀ pod ∈ pods, g.Measures pod.requests

/-- The simulation gives a notice exactly if the audit finds something. -/
theorem overCommitted_mem_notices {o : Outcome} :
    .overCommitted ∈ o.notices ↔ Audit.violations o.schedule o.nodes ≠ [] := by
  have hstatus : .overCommitted ∉ if o.isComplete then [] else [Notice.simulationAborted] := by
    split <;> simp
  rw [Outcome.notices, List.mem_append, or_iff_left hstatus, List.mem_map]
  constructor
  · rintro ⟨v, hv, -⟩
    exact List.ne_nil_of_mem hv
  · intro hne
    obtain ⟨v, hv⟩ := List.exists_mem_of_ne_nil _ hne
    exact ⟨v, hv, rfl⟩

/-- What the audit finds in the schedule of a simulation. -/
structure Audited (nodes : List Ledger) (pods : List Pod) (outcome : Outcome) : Prop where
  /-- A notice is given exactly if something is found. -/
  notice : .overCommitted ∈ outcome.notices ↔ Audit.violations outcome.schedule nodes ≠ []
  /-- GPUs and memory are never over-committed. -/
  counted : ∀ v ∈ Audit.violations outcome.schedule nodes,
    v.inUse.gpu ≤ v.capacity.gpu ∧ v.inUse.memory ≤ v.capacity.memory
  /-- Nothing is found if the amounts of CPU add up. -/
  sound : AddUp nodes pods → Audit.violations outcome.schedule nodes = []
  /-- Otherwise a node is over-committed by a tolerance for each pod and one more at most, provided that
  rounding errors are small. -/
  excess : ∀ p : Precision, pods.length ≤ p.pods →
    (∀ l ∈ nodes, l.capacity.IsAmount ∧ l.capacity.cpu.value ≤ p.cores) →
    (∀ pod ∈ pods, pod.requests.IsAmount) → ∀ v ∈ Audit.violations outcome.schedule nodes,
      v.inUse.cpu.value ≤ v.capacity.cpu.value + (pods.length + 1) * Resources.cpuTolerance.value

/-- From idle nodes with distinct names, every policy makes a schedule in which the audit never finds too
much in GPUs and memory, and nothing at all if the amounts of CPU add up. If they do not, what it finds
is bounded by the tolerances that were granted. -/
theorem runPolicy_audited (policy : Policy) (nodes : List Ledger) (pods : List Pod)
    (hidle : ∀ l ∈ nodes, l.IsIdle) (hnames : (nodes.map Ledger.name).Nodup)
    (hids : (pods.map Pod.id).Nodup) :
    ∃ outcome, runPolicy policy nodes pods = .ok outcome ∧ Audited nodes pods outcome := by
  obtain ⟨s, status, hends, hruns⟩ := ends_spec policy nodes pods
  have hbookings : (bookings (history policy nodes pods)).length ≤ pods.length := by
    have hperm := (hruns.pods_perm hids).length_eq
    rw [List.length_append, List.length_map] at hperm
    omega
  refine ⟨_, hends.runPolicy_eq, ?_, ?_, ?_, ?_⟩
  · rw [overCommitted_mem_notices, Audit.violations_congr hruns.map_toList_eq]
  · intro v hv
    obtain ⟨l, hl, t, rfl, -⟩ := Audit.mem_violations hv
    exact hruns.usage_le_of_mem hidle hnames hl t
  · intro haddUp
    refine hruns.violations_eq_nil hidle hnames ?_
    intro l hl t
    rcases haddUp with ⟨hcapacity, hrequests⟩ | ⟨g, hpods, hcapacity, hrequests⟩
    · exact hruns.usage_cpu_le_of_wholeCores hidle hnames hcapacity hrequests hl t
    · exact hruns.usage_cpu_le_of_measures hidle hnames g (hbookings.trans hpods) hcapacity hrequests
        hl t
  · intro p hpods hcapacity hrequests v hv
    obtain ⟨l, hl, t, rfl, -⟩ := Audit.mem_violations hv
    exact hruns.usage_cpu_value_le hidle hnames p hbookings hpods hcapacity hrequests hl t

/-- One node of three tenths of a core. -/
def tenthNodes : List Ledger := [.idle "a" (.ofCpu 0.3)]

/-- Two pods of one and two tenths of a core, whose sum in doubles is more than three tenths. -/
def tenthPods : List Pod := [.ofCpu 1 0 10 0.1, .ofCpu 2 0 10 0.2]

/-- The amounts of the two pods and of the node add up. -/
theorem addUp_tenths : AddUp tenthNodes tenthPods := by
  refine .inr ⟨⟨⟨1, 2, by decide⟩, 10, by decide, by decide⟩, by decide, ?_, ?_⟩
  · intro l hl
    rw [tenthNodes, List.mem_singleton] at hl
    rw [hl]
    exact ⟨3, by decide, by decide +kernel⟩
  · intro pod hpod
    rw [tenthPods, List.mem_cons, List.mem_singleton] at hpod
    rcases hpod with rfl | rfl
    · exact ⟨1, by decide, by decide +kernel⟩
    · exact ⟨2, by decide, by decide +kernel⟩

/-- The audit finds nothing about the two pods on the node. -/
theorem runPolicy_audited_tenths : ∃ outcome,
    runPolicy Heuristic.longestJobFirst.policy tenthNodes tenthPods = .ok outcome ∧
      Audited tenthNodes tenthPods outcome ∧ Audit.violations outcome.schedule tenthNodes = [] := by
  obtain ⟨outcome, hrun, haudited⟩ := runPolicy_audited Heuristic.longestJobFirst.policy
    tenthNodes tenthPods (by simp [tenthNodes]) (by decide) (by decide)
  exact ⟨outcome, hrun, haudited, haudited.sound addUp_tenths⟩

/-- One node of one core. -/
def coreNodes : List Ledger := [.idle "a" (.ofCpu 1)]

/-- Three pods. The first one and either of the others are over a core, within the tolerance, and so are
the last two by twice as much. -/
def halfPods : List Pod :=
  [.ofCpu 1 0 10 0.5, .ofCpu 2 0 100 0.5000000009, .ofCpu 3 10 10 0.5000000009]

/-- The audit can find too much: the second pod goes over the core, but the node has nothing available
then and not less, so it has half a core available when the first pod is gone, and it admits the third
pod with the tolerance once more. -/
theorem exists_violation_halfPods :
    (∀ l ∈ coreNodes, l.IsIdle) ∧ (coreNodes.map Ledger.name).Nodup ∧ (halfPods.map Pod.id).Nodup ∧
      (∀ pod ∈ halfPods, pod.requests.cpu.isFinite = true ∧ 0 ≤ pod.requests.cpu ∧
        pod.submit.isFinite = true ∧ pod.duration.isFinite = true ∧ 0 ≤ pod.duration) ∧
      ∃ outcome, runPolicy Heuristic.firstFit.policy coreNodes halfPods = .ok outcome ∧
        Audit.violations outcome.schedule coreNodes ≠ [] ∧ .overCommitted ∈ outcome.notices := by
  refine ⟨by simp [coreNodes], by decide, by decide, by decide +kernel, ?_⟩
  exact exists_outcome_of_any (by decide +kernel)

end Simulation

end PodPlacement
