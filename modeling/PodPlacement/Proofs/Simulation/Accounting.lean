import PodPlacement.Proofs.Ledger.Balance
import PodPlacement.Proofs.Simulation.Termination

/-! # Every pod is accounted for

At the end of a simulation each pod was either booked, once, or is still pending, and a booking starts
neither before its pod was submitted nor before zero.

* `Attempt.Sound.clock_le_start` — no booking starts before the clock; `start_eq_clock` — without a
  queue it starts at the clock.
* `Runs.pairwise_clock` — tries are made at clocks that never fall.
* `Accounted`, `runPolicy_accounted` — the whole account of a simulation. -/

namespace PodPlacement

namespace Simulation

variable {n : Nat}

/-! ### When bookings start -/

namespace Attempt.Sound

variable {policy : Policy} {active : List (Fin n)} {a : Attempt n} {p : Placement n}

/-- The clock is a number. -/
theorem clock_isNaN (h : a.Sound policy active) : a.clock.isNaN = false :=
  Binary64.isNaN_of_le_right h.nonneg

/-- Without a queue every node offers the clock. -/
theorem offer_eq_clock (h : a.Sound policy active) (hnow : policy.anticipates = false) (j : Fin n) :
    a.before.offer a.pod a.clock j = a.clock := by
  have hmode := h.mode
  rw [hnow, Option.isSome_eq_false_iff, Option.isNone_iff_eq_none] at hmode
  rw [Cluster.offer, hmode]

/-- With a queue every node offers the earliest start after what runs on it. -/
theorem offer_eq_startOn (h : a.Sound policy active) (hahead : policy.anticipates = true) (j : Fin n) :
    a.before.offer a.pod a.clock j = Cluster.startOn a.before.nodes[j] a.pod a.clock := by
  have hmode := h.mode
  rw [hahead, Option.isSome_iff_exists] at hmode
  obtain ⟨queue, hqueue⟩ := hmode
  rw [Cluster.offer, hqueue]

/-- No node offers a start before the clock. -/
theorem clock_le_offer (h : a.Sound policy active) (j : Fin n) :
    a.clock ≤ a.before.offer a.pod a.clock j := by
  cases hahead : policy.anticipates with
  | false =>
    rw [h.offer_eq_clock hahead]
    exact Binary64.le_refl h.clock_isNaN
  | true =>
    rw [h.offer_eq_startOn hahead]
    exact Cluster.clock_le_startOn h.clock_isNaN

/-- No booking starts before the clock. -/
theorem clock_le_start (h : a.Sound policy active) (hp : a.placement? = some p) : a.clock ≤ p.start := by
  rw [(h.trial.hosted p hp).2.1]
  exact h.clock_le_offer p.node

/-- Without a queue bookings start at the clock. -/
theorem start_eq_clock (h : a.Sound policy active) (hnow : policy.anticipates = false)
    (hp : a.placement? = some p) : p.start = a.clock := by
  rw [(h.trial.hosted p hp).2.1, h.offer_eq_clock hnow]

end Attempt.Sound

namespace Runs

variable {policy : Policy} {active : List (Fin n)} {s s' : State n} {log : List (Attempt n)}
  {status : Status}

/-- The tries of a run are made at clocks that never fall. -/
theorem pairwise_clock (h : Runs policy active s log s' status) :
    log.Pairwise fun a b => a.clock ≤ b.clock := by
  have hsorted := h.invariant (K := fun _ => True)
    (P := fun done clock _ => (done.Pairwise fun a b => a.clock ≤ b.clock) ∧ ∀ a ∈ done, a.clock ≤ clock)
    ?_ ?_ (fun _ _ => trivial) [] ⟨.nil, fun a ha => absurd ha List.not_mem_nil⟩
  · exact hsorted.1
  · rintro done a hsound - ⟨hpair, hle⟩
    refine ⟨List.pairwise_append.2 ⟨hpair, List.pairwise_singleton _ _, ?_⟩, ?_⟩
    · intro b hb c hc
      rw [List.mem_singleton.1 hc]
      exact hle b hb
    · intro b hb
      rcases List.mem_append.1 hb with hb | hb
      · exact hle b hb
      · rw [List.mem_singleton.1 hb]
        exact Binary64.le_refl hsound.clock_isNaN
  · rintro done clock clock' - hlt ⟨hpair, hle⟩
    exact ⟨hpair, fun a ha => Binary64.le_trans (hle a ha) (Binary64.le_of_lt hlt)⟩

/-- What is known of a booking of a run. -/
theorem of_mem_bookings (h : Runs policy active s log s' status) {b : Booking n} (hb : b ∈ bookings log) :
    b.pod ∈ s.pending ∧ b.node ∈ active ∧ b.pod.submit ≤ b.start ∧ 0 ≤ b.start ∧
      b.finish = b.start + b.pod.duration := by
  obtain ⟨a, ha, hplaced, hpod⟩ := mem_bookings.1 hb
  obtain ⟨hsound, hpending⟩ := h.sound a ha
  obtain ⟨hnode, -, hfinish, -, -⟩ := hsound.trial.hosted _ hplaced
  have hstart := hsound.clock_le_start hplaced
  rw [hpod] at hpending hfinish
  refine ⟨hpending, hnode, ?_, Binary64.le_trans hsound.nonneg hstart, hfinish⟩
  rw [← hpod]
  exact Binary64.le_trans hsound.submitted hstart

/-- Without a queue bookings are made in the order of their starts. -/
theorem pairwise_start (h : Runs policy active s log s' status) (hnow : policy.anticipates = false) :
    (bookings log).Pairwise fun b b' => b.start ≤ b'.start := by
  refine List.pairwise_filterMap.2 ?_
  refine h.pairwise_clock.imp_of_mem ?_
  intro a a' ha ha' hle b hb b' hb'
  rw [Attempt.booking?, Option.map_eq_some_iff] at hb hb'
  obtain ⟨p, hp, rfl⟩ := hb
  obtain ⟨p', hp', rfl⟩ := hb'
  have hstart := (h.sound a ha).1.start_eq_clock hnow hp
  have hstart' := (h.sound a' ha').1.start_eq_clock hnow hp'
  show p.start ≤ p'.start
  rw [hstart, hstart']
  exact hle

/-- A run is completed exactly if nothing is pending at its end. -/
theorem status_eq_completed (h : Runs policy active s log s' status) (hs : s.Sound policy active) :
    status = .completed ↔ s'.pending = [] := by
  obtain ⟨t, done, log', -, -, -, hlast⟩ := h.last hs
  cases hlast with
  | completed hpending => exact ⟨fun _ => hpending, fun _ => rfl⟩
  | noActiveNodes hpending => exact ⟨(fun h => by cases h), fun h => absurd h hpending⟩
  | stuck htried => exact ⟨(fun h => by cases h), fun h => absurd h htried.hasPending⟩

/-- A run that ends for want of an event reports how many pods are pending at its end. -/
theorem length_pending (h : Runs policy active s log s' status) (hs : s.Sound policy active)
    {clock : Seconds} {pending : Nat} (hstatus : status = .aborted (.noNextEvent clock pending)) :
    pending = s'.pending.length := by
  obtain ⟨t, done, log', -, -, -, hlast⟩ := h.last hs
  subst hstatus
  cases hlast with
  | stuck htried => rfl

end Runs

section Initial

variable {policy : Policy} {nodes : Nodes n} {active : List (Fin n)} {pods : List Pod}
  {log : List (Attempt n)} {s : State n} {status : Status}

/-- Booked and pending pods make up the given ones. -/
theorem Runs.pods_perm (h : Runs policy active (initial policy nodes pods) log s status)
    (hids : (pods.map Pod.id).Nodup) : ((bookings log).map Booking.pod ++ s.pending).Perm pods := by
  have hinit : (initial policy nodes pods).pending.Perm pods := arrange_perm policy.jobOrder pods
  have hids' := (hinit.map Pod.id).nodup_iff.2 hids
  exact (h.pending_perm hids').trans hinit

/-- The records at the end are those of the bookings. -/
theorem Runs.records_eq (h : Runs policy active (initial policy nodes pods) log s status) :
    s.schedule.records = (bookings log).map (Booking.record nodes) := by
  rw [h.schedule_eq, Schedule.records_book]
  rfl

end Initial

/-! ### The account of a simulation -/

/-- The account of a simulation: its bookings, one for each pod that was placed. -/
structure Accounted (policy : Policy) (nodes : List Ledger) (pods : List Pod) (outcome : Outcome)
    (booked : List (Booking nodes.length)) : Prop where
  /-- The records are those of the bookings. -/
  records : outcome.schedule.records = booked.map (Booking.record (positions nodes))
  /-- No pod is booked twice. -/
  once : (booked.map fun b => b.pod.id).Nodup
  /-- Only given pods are booked. -/
  given : ∀ b ∈ booked, b.pod ∈ pods
  /-- Pods are booked on active nodes. -/
  active : ∀ b ∈ booked, nodes[b.node].isActive = true
  /-- No booking starts before its pod was submitted. -/
  submitted : ∀ b ∈ booked, b.pod.submit ≤ b.start
  /-- No booking starts before zero. -/
  nonneg : ∀ b ∈ booked, 0 ≤ b.start
  /-- A booking lasts as long as its pod runs. -/
  finish : ∀ b ∈ booked, b.finish = b.start + b.pod.duration
  /-- Pods that are placed at the clock are booked in the order of their starts. -/
  inOrder : policy.anticipates = false → booked.Pairwise fun b b' => b.start ≤ b'.start
  /-- All given pods count. -/
  total : outcome.total = pods.length
  /-- The simulation is completed exactly if every given pod is booked. -/
  completed : outcome.status = .completed ↔ ∀ pod ∈ pods, ∃ b ∈ booked, b.pod = pod
  /-- If it ends for want of an event, it reports the number of pods that are not booked. -/
  pending : ∀ clock pending, outcome.status = .aborted (.noNextEvent clock pending) →
    pending + outcome.schedule.size = outcome.total

/-- If the numbers of the pods are distinct, a simulation comes to an outcome that accounts for each of
them, whatever the policy and the nodes are. -/
theorem runPolicy_accounted (policy : Policy) (nodes : List Ledger) (pods : List Pod)
    (hids : (pods.map Pod.id).Nodup) : ∃ outcome booked,
      runPolicy policy nodes pods = .ok outcome ∧ Accounted policy nodes pods outcome booked := by
  obtain ⟨s, status, hends, hruns⟩ := ends_spec policy nodes pods
  have hsound := sound_initial policy (positions nodes) pods
  have hperm := hruns.pods_perm hids
  have hbooking {b : Booking nodes.length} (hb : b ∈ bookings (history policy nodes pods)) :=
    hruns.of_mem_bookings hb
  refine ⟨_, bookings (history policy nodes pods), hends.runPolicy_eq, ?_⟩
  exact {
    records := hruns.records_eq
    once := by
      have hall := (hperm.map Pod.id).nodup_iff.2 hids
      rw [List.map_append, List.map_map] at hall
      exact hall.of_append_left
    given := fun b hb => hperm.subset (List.mem_append_left _ (List.mem_map_of_mem hb))
    active := fun b hb => mem_activeNodes.1 (hbooking hb).2.1
    submitted := fun b hb => (hbooking hb).2.2.1
    nonneg := fun b hb => (hbooking hb).2.2.2.1
    finish := fun b hb => (hbooking hb).2.2.2.2
    inOrder := fun hnow => hruns.pairwise_start hnow
    total := rfl
    completed := by
      show status = .completed ↔ _
      rw [hruns.status_eq_completed hsound]
      constructor
      · intro hnone pod hpod
        rw [hnone, List.append_nil] at hperm
        exact List.mem_map.1 (hperm.mem_iff.2 hpod)
      · intro hall
        rw [List.eq_nil_iff_forall_not_mem]
        intro pod hpod
        -- A pending pod would be booked as well.
        have hnodup := hperm.nodup_iff.2 (List.Nodup.of_map Pod.id hids)
        have hbooked := hall pod (hperm.subset (List.mem_append_right _ hpod))
        exact List.disjoint_of_nodup_append hnodup (List.mem_map.2 hbooked) hpod
    pending := by
      intro clock pending hstatus
      have hlength := hperm.length_eq
      rw [List.length_append, List.length_map] at hlength
      rw [hruns.length_pending hsound hstatus]
      show s.pending.length + s.schedule.records.length = pods.length
      rw [hruns.records_eq, List.length_map]
      omega }

/-- Two pods are accounted for on one node. -/
theorem runPolicy_accounted_pair : ∃ outcome booked,
    runPolicy Heuristic.firstFit.policy [.idle "a" (.ofCpu 2)] [.ofCores 1 0 10 1, .ofCores 2 5 10 2] =
        .ok outcome ∧
      Accounted Heuristic.firstFit.policy [.idle "a" (.ofCpu 2)]
        [.ofCores 1 0 10 1, .ofCores 2 5 10 2] outcome booked :=
  runPolicy_accounted _ _ _ (by decide)

end Simulation

end PodPlacement
