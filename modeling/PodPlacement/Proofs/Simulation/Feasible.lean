import PodPlacement.Proofs.Comparison
import PodPlacement.Proofs.Simulation.Abort

/-! # Which pods are placed

From idle nodes, with amounts of whole cores, exactly the pods are placed that would fit on an empty
active node; the policy has no say in it. A placed pod fits because a ledger never offers more than its
capacity. A pod that is left was declined by every active node, and each of these was empty when it
declined:

* a node that places pods ahead is asked at the instant it is free, and all its pods finish then;
* a node that places pods at the clock was brought to the clock by the last pass, and a pod left on it
  would be an event to wait for.

The main statements are `Runs.fits_of_mem_bookings`, `Runs.not_fits_of_pending` and
`runPolicy_places_placeable`. -/

namespace PodPlacement

namespace Simulation

variable {n : Nat} {policy : Policy} {active : List (Fin n)}

/-! ### Booked and pending pods -/

section Last

variable {s s' : State n} {log : List (Attempt n)} {status : Status}

/-- A booked pod is within the capacity of its node. -/
theorem Runs.fits_of_mem_bookings (h : Runs policy active s log s' status)
    (hpending : ∀ pod ∈ s.pending, Ordinary pod) (hinit : ∀ j : Fin n, s.cluster.nodes[j].Regular)
    {b : Booking n} (hb : b ∈ bookings log) :
    b.pod.requests.shortage? s.cluster.nodes[b.node].capacity = none := by
  obtain ⟨a, ha, hplaced, hpod⟩ := mem_bookings.1 hb
  obtain ⟨hsound, ha'⟩ := h.sound a ha
  obtain ⟨-, -, -, hadmits, -⟩ := hsound.trial.hosted _ hplaced
  have hregular := ((h.regular hpending hinit).2 a ha b.node).advance b.start
  have hfits := hregular.fits_of_refusal?_eq_none (hpending _ ha').1 (Ledger.canAdmit_iff.1 hadmits)
  rwa [Ledger.capacity_advance, (h.capacity_eq b.node).2 a ha, hpod] at hfits

/-- At the end of a run, no pending pod would fit on an active node, if all pods on each node finish at
one instant at the beginning. -/
theorem Runs.not_fits_of_pending (h : Runs policy active s log s' status) (hs : s.Sound policy active)
    (hpending : ∀ pod ∈ s.pending, Ordinary pod) (hsubmit : ∀ pod ∈ s.pending, pod.submit.isNaN = false)
    (hinit : ∀ j : Fin n, s.cluster.nodes[j].Regular)
    (htogether : ∀ j ∈ active, s.cluster.nodes[j].Together) :
    ∀ pod ∈ s'.pending, ∀ j ∈ active, pod.requests.shortage? s.cluster.nodes[j].capacity ≠ none := by
  intro pod hpod j hj
  obtain ⟨t, done, log', -, -, hsub, hlast⟩ := h.last hs
  cases hlast with
  | completed hnone =>
    rw [hnone] at hpod
    cases hpod
  | noActiveNodes _ hactive =>
    rw [hactive] at hj
    cases hj
  | stuck htried =>
    obtain ⟨a, ha, rfl, -, hdeclined⟩ := h.exists_declined hs hpending hsubmit hinit rfl hpod
    obtain ⟨hdeclined, -, hempty⟩ := hdeclined j hj
    have hregular := ((h.regular hpending hinit).2 a ha j).advance
      (a.before.offer a.pod a.clock j)
    -- The node was empty when it declined the pod.
    have hnotFits := Ledger.canAdmit_eq_false.1 hdeclined
    rwa [Ne, hregular.refusal?_eq_none_iff (hpending _ (hsub.subset hpod)).1
      (hempty fun _ => htogether), Ledger.capacity_advance, (h.capacity_eq j).2 a ha] at hnotFits

end Last

/-! ### All policies alike -/

/-- Some node could host the pod if it were empty. -/
def placeable (nodes : List Ledger) (pod : Pod) : Bool := nodes.any fun l => l.couldHost pod.requests

/-- A pod is placeable if it is within the capacity of an active node. -/
theorem placeable_iff {nodes : List Ledger} (hcapacity : ∀ l ∈ nodes, l.capacity.WholeCores) {pod : Pod}
    (hpod : Ordinary pod) : placeable nodes pod = true ↔ ∃ j ∈ activeNodes (positions nodes),
      pod.requests.shortage? (positions nodes)[j].capacity = none := by
  rw [placeable, List.any_eq_true]
  constructor
  · rintro ⟨l, hl, hcould⟩
    rw [Ledger.couldHost_iff hpod.1 (hcapacity l hl)] at hcould
    obtain ⟨j, hj, rfl⟩ := List.mem_iff_getElem.1 hl
    exact ⟨⟨j, hj⟩, mem_activeNodes.2 hcould.1, hcould.2⟩
  · rintro ⟨j, hj, hfits⟩
    have hl : nodes[j] ∈ nodes := List.getElem_mem j.isLt
    exact ⟨nodes[j], hl, (Ledger.couldHost_iff hpod.1 (hcapacity _ hl)).2 ⟨mem_activeNodes.1 hj, hfits⟩⟩

section Placeable

variable {nodes : List Ledger} {pods : List Pod} {log : List (Attempt nodes.length)}
  {s : State nodes.length} {status : Status} (hidle : ∀ l ∈ nodes, l.IsIdle)
  (hcapacity : ∀ l ∈ nodes, l.capacity.WholeCores) (hpods : ∀ pod ∈ pods, Ordinary pod)

include hidle hcapacity in
/-- Idle nodes of whole cores are in order, and empty. -/
theorem regular_initial (j : Fin nodes.length) :
    (initial policy (positions nodes) pods).cluster.nodes[j].Regular ∧
      (initial policy (positions nodes) pods).cluster.nodes[j].Together := by
  show (positions nodes)[j].Regular ∧ (positions nodes)[j].Together
  rw [isIdle_positions hidle j]
  exact ⟨.idle _ (hcapacity _ (List.getElem_mem j.isLt)), Ledger.together_of_pods_eq_nil rfl⟩

include hidle hcapacity hpods in
/-- Booked pods are placeable. -/
theorem Runs.placeable_of_booked
    (h : Runs policy (activeNodes (positions nodes)) (initial policy (positions nodes) pods) log s
      status) : ∀ pod ∈ (bookings log).map Booking.pod, placeable nodes pod = true := by
  intro pod hpod
  obtain ⟨b, hb, rfl⟩ := List.mem_map.1 hpod
  have hgiven := (arrange_perm policy.jobOrder pods).subset
  obtain ⟨hmem, hactive, -⟩ := h.of_mem_bookings hb
  refine (placeable_iff hcapacity (hpods _ (hgiven hmem))).2 ⟨b.node, hactive, ?_⟩
  exact h.fits_of_mem_bookings (fun pod hpod => hpods pod (hgiven hpod))
    (fun j => (regular_initial hidle hcapacity j).1) hb

include hidle hcapacity hpods in
/-- Pods that are pending at the end are not placeable. -/
theorem Runs.not_placeable_of_pending
    (h : Runs policy (activeNodes (positions nodes)) (initial policy (positions nodes) pods) log s status)
    (hsubmit : ∀ pod ∈ pods, pod.submit.isNaN = false) (hids : (pods.map Pod.id).Nodup) :
    ∀ pod ∈ s.pending, ¬ placeable nodes pod = true := by
  intro pod hpod
  have hgiven := (arrange_perm policy.jobOrder pods).subset
  have hmem : pod ∈ pods := (h.pods_perm hids).subset (List.mem_append_right _ hpod)
  rw [placeable_iff hcapacity (hpods pod hmem)]
  rintro ⟨j, hj, hfits⟩
  exact h.not_fits_of_pending (sound_initial policy (positions nodes) pods)
    (fun pod hpod => hpods pod (hgiven hpod)) (fun pod hpod => hsubmit pod (hgiven hpod))
    (fun j => (regular_initial hidle hcapacity j).1)
    (fun j _ => (regular_initial hidle hcapacity j).2) pod hpod j hj hfits

end Placeable

/-- What a simulation comes to if its outcome is determined by the placeable pods alone: it ends by
itself, its records are those of the placeable pods, one each, and it is completed exactly if all pods
are placeable. -/
structure PlacesPlaceable (policy : Policy) (nodes : List Ledger) (pods : List Pod) (outcome : Outcome)
    (booked : List (Booking nodes.length)) : Prop where
  /-- The outcome is that of the simulation. -/
  outcome_eq : runPolicy policy nodes pods = .ok outcome
  /-- The simulation ends by itself, with the status of the outcome. -/
  ends : ∃ s, Ends policy nodes pods s outcome.status
  /-- The records are those of the bookings. -/
  records : outcome.schedule.records = booked.map (Booking.record (positions nodes))
  /-- The placeable pods are booked, once each. -/
  placeable : (booked.map Booking.pod).Perm (pods.filter (placeable nodes))
  /-- The simulation is completed exactly if all pods are placeable. -/
  completed : outcome.status = .completed ↔ ∀ pod ∈ pods, Simulation.placeable nodes pod = true

/-- From idle nodes of whole cores, every policy places exactly the placeable pods. -/
theorem exists_placesPlaceable {nodes : List Ledger} {pods : List Pod} (hidle : ∀ l ∈ nodes, l.IsIdle)
    (hcapacity : ∀ l ∈ nodes, l.capacity.WholeCores) (hids : (pods.map Pod.id).Nodup)
    (hsubmit : ∀ pod ∈ pods, pod.submit.isNaN = false) (hpods : ∀ pod ∈ pods, Ordinary pod)
    (policy : Policy) : ∃ outcome booked, PlacesPlaceable policy nodes pods outcome booked := by
  obtain ⟨s, status, hends, hruns⟩ := ends_spec policy nodes pods
  have hperm := hruns.pods_perm hids
  have hbooked := hruns.placeable_of_booked hidle hcapacity hpods
  have hpending := hruns.not_placeable_of_pending hidle hcapacity hpods hsubmit hids
  refine ⟨_, bookings (history policy nodes pods), hends.runPolicy_eq, ⟨s, hends⟩, ?_, ?_, ?_⟩
  · exact hruns.records_eq
  · have hfilter := hperm.filter (placeable nodes)
    rwa [List.filter_append, List.filter_eq_self.2 hbooked, List.filter_eq_nil_iff.2 hpending,
      List.append_nil] at hfilter
  · show status = .completed ↔ _
    rw [hruns.status_eq_completed (sound_initial policy (positions nodes) pods)]
    constructor
    · intro hnone pod hpod
      rw [hnone, List.append_nil] at hperm
      exact hbooked pod (hperm.mem_iff.2 hpod)
    · intro hall
      rw [List.eq_nil_iff_forall_not_mem]
      intro pod hpod
      exact hpending pod hpod (hall pod (hperm.subset (List.mem_append_right _ hpod)))

/-- Which pods are placed does not depend on the policy: from idle nodes of whole cores, every policy
places exactly the pods that some active node could host, so the rows of a comparison agree on how many
pods were placed and on whether all were. -/
theorem runPolicy_places_placeable (nodes : List Ledger) (pods : List Pod) (hidle : ∀ l ∈ nodes, l.IsIdle)
    (hcapacity : ∀ l ∈ nodes, l.capacity.WholeCores) (hids : (pods.map Pod.id).Nodup)
    (hsubmit : ∀ pod ∈ pods, pod.submit.isNaN = false)
    (hrequests : ∀ pod ∈ pods, pod.requests.WholeCores)
    (hdurations : ∀ pod ∈ pods, pod.duration.isFinite = true) :
    (∀ policy : Policy, ∃ outcome booked, PlacesPlaceable policy nodes pods outcome booked) ∧
      ∃ rows, Comparison.rows nodes pods = .ok rows ∧
        rows.value.map ComparisonRow.heuristic = Heuristic.all ∧
        ∀ row ∈ rows.value, row.scheduled = (pods.filter (placeable nodes)).length ∧
          row.completed = pods.all (placeable nodes) := by
  have hall := exists_placesPlaceable hidle hcapacity hids hsubmit
    fun pod hpod => ⟨hrequests pod hpod, hdurations pod hpod⟩
  refine ⟨hall, ?_⟩
  choose outcome booked hplaces using fun heuristic : Heuristic => hall heuristic.policy
  refine ⟨_, Comparison.rows_eq fun heuristic => (hplaces heuristic).outcome_eq, rfl, ?_⟩
  intro row hrow
  obtain ⟨heuristic, -, rfl⟩ := List.mem_map.1 hrow
  have h := hplaces heuristic
  constructor
  · show (outcome heuristic).schedule.records.length = _
    rw [h.records, List.length_map, ← h.placeable.length_eq, List.length_map]
  · show decide ((outcome heuristic).status = .completed) = _
    rw [Bool.eq_iff_iff, decide_eq_true_eq, List.all_eq_true]
    exact h.completed

/-- Two nodes, with two cores and with one. -/
def smallNodes : List Ledger := [.idle "a" (.ofCpu (.ofNat 2)), .idle "b" (.ofCpu (.ofNat 1))]

/-- Two pods; the second one asks for more cores than either of the two nodes has. -/
def largePods : List Pod := [.ofCores 1 0 10 2, .ofCores 2 5 10 3]

/-- Which of the two pods are placed on the two nodes does not depend on the policy. -/
theorem runPolicy_places_placeable_pair :
    (∀ policy : Policy, ∃ outcome booked,
      PlacesPlaceable policy smallNodes largePods outcome booked) ∧
      ∃ rows, Comparison.rows smallNodes largePods = .ok rows ∧
        rows.value.map ComparisonRow.heuristic = Heuristic.all ∧
        ∀ row ∈ rows.value, row.scheduled = (largePods.filter (placeable smallNodes)).length ∧
          row.completed = largePods.all (placeable smallNodes) := by
  refine runPolicy_places_placeable _ _ (by simp [smallNodes]) ?_ (by decide) ?_ ?_ ?_
  · simp [smallNodes, Ledger.idle, Resources.wholeCores_ofCpu]
  · decide +kernel
  · simp [largePods, Pod.ofCores, Resources.wholeCores_ofCpu]
  · decide +kernel

end Simulation

end PodPlacement
