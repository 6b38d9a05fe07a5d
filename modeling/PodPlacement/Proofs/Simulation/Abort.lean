import PodPlacement.Proofs.Ledger.Regular
import PodPlacement.Proofs.Simulation.Accounting

/-! # Runs that end for want of an event

A run is aborted when a pass has placed nothing and nothing is left to wait for. Every pending pod was
tried in that pass and declined by every active node, and at the end of the pass every active node is
empty. This does not mean that the nodes were empty when they declined: a pod that is placed ahead is
tried at the instant the next pod on the node finishes, and it is a later try, of another pod, that
takes the last pods off the node.

* `Tried.pods_eq_nil` — nothing runs on an active node after the last pass.
* `Tried.pods_advance_eq_nil` — a node was empty already when it declined if pods start at the clock, or
  if all pods on the node finish at one instant.
* `Leftover` — what is known of a pod that is left and of an active node.
* `runPolicy_leftover_of_abort` — a pod that is left fits on an active node exactly if the node would
  admit it on another try; `exists_couldHost_of_abort` — this happens. -/

namespace PodPlacement

namespace Simulation

variable {n : Nat} {policy : Policy} {active : List (Fin n)}

/-- A pod whose request is whole and whose duration is finite. -/
def Ordinary (pod : Pod) : Prop := pod.requests.WholeCores ∧ pod.duration.isFinite = true

/-! ### Ledgers along a run -/

/-- A node that places ahead is free no later than the start it offers. -/
theorem Attempt.Sound.earliestFree_le_offer {a : Attempt n} (h : a.Sound policy active)
    (hahead : policy.anticipates = true) {j : Fin n}
    (hfree : a.before.nodes[j].earliestFree.isNaN = false) :
    a.before.nodes[j].earliestFree ≤ a.before.offer a.pod a.clock j := by
  rw [h.offer_eq_startOn hahead]
  exact Cluster.earliestFree_le_startOn hfree

section Ledgers

variable {s s' : State n} {log : List (Attempt n)} {status : Status}

/-- Ledgers in order stay so. -/
theorem Runs.regular (h : Runs policy active s log s' status) (hpending : ∀ pod ∈ s.pending, Ordinary pod)
    (hinit : ∀ j : Fin n, s.cluster.nodes[j].Regular) :
    (∀ j : Fin n, s'.cluster.nodes[j].Regular) ∧ ∀ a ∈ log, ∀ j : Fin n, a.before.nodes[j].Regular := by
  refine h.ledger_invariant (Q := fun _ l => l.Regular) (fun _ l t hl => hl.advance t) ?_ hpending hinit
  intro a j hsound hpod hj hadmits
  exact hj.host hpod.1 hpod.2 (Binary64.isNaN_of_le_right (hsound.clock_le_offer j)) hadmits

/-- If all pods on a node that places ahead finish at one instant, they always do. -/
theorem Runs.together (h : Runs policy active s log s' status) (hahead : policy.anticipates = true)
    (hpending : ∀ pod ∈ s.pending, Ordinary pod) (hinit : ∀ j : Fin n, s.cluster.nodes[j].Regular)
    (htogether : ∀ j ∈ active, s.cluster.nodes[j].Together) :
    ∀ a ∈ log, ∀ j ∈ active, a.before.nodes[j].Together := by
  have hboth := h.ledger_invariant (Q := fun j l => l.Regular ∧ (j ∈ active → l.Together))
    (K := Ordinary) ?_ ?_ hpending fun j => ⟨hinit j, htogether j⟩
  · exact fun a ha j hj => (hboth.2 a ha j).2 hj
  · rintro j l t ⟨hl, hone⟩
    exact ⟨hl.advance t, fun hj => (hone hj).advance t⟩
  · rintro a j hsound hpod ⟨hl, hone⟩ hadmits
    have hfinish := Binary64.isNaN_add_of_isFinite
      (Binary64.isNaN_of_le_right (hsound.clock_le_offer j)) hpod.2
    refine ⟨hl.host hpod.1 hpod.2 (Binary64.isNaN_of_le_right (hsound.clock_le_offer j)) hadmits, ?_⟩
    intro hj p hp q hq
    -- The pods that were there have finished when the new one starts, so it is alone.
    have hempty := hl.sorted.pods_advance_eq_nil (hone hj)
      (hsound.earliestFree_le_offer hahead hl.earliestFree_isNaN)
    rw [(Ledger.pods_host_perm _ _ _).mem_iff, hempty, List.mem_singleton] at hp hq
    rw [hp, hq]
    exact Binary64.le_refl hfinish

end Ledgers

/-! ### The last pass -/

/-- What is left on an active node that declined a pod has not finished by the clock. -/
theorem Attempt.Sound.not_finish_le {a : Attempt n} (h : a.Sound policy active)
    (hnone : a.placement? = none) {j : Fin n} (hj : j ∈ active) (hsorted : a.before.nodes[j].Sorted) :
    ∀ p ∈ a.after.nodes[j].pods, ¬ p.finish ≤ a.clock := by
  intro p hp hle
  rw [(h.trial.declined hnone j hj).2] at hp
  exact hsorted.not_finish_le hp (Binary64.le_trans hle (h.clock_le_offer j))

namespace Tried

variable {s : State n} {log : List (Attempt n)} {cluster : Cluster n}

/-- If no submission is ahead, a pending pod was tried, and without placements every active node
declined it. -/
theorem exists_declined (h : Tried policy active s log cluster) (hplaced : bookings log = [])
    (hevent : nextEvent? s.pending cluster.nodes active s.clock = none) (hclock : 0 ≤ s.clock) {pod : Pod}
    (hpod : pod ∈ s.pending) (hsubmit : pod.submit.isNaN = false) :
    ∃ a ∈ log, a.pod = pod ∧ a.clock = s.clock ∧ ∀ j ∈ active,
      a.before.nodes[j].canAdmit pod.requests (a.before.offer a.pod a.clock j) = false := by
  have hready : pod.submit ≤ s.clock := by
    by_contra hnot
    rw [Binary64.not_le_iff hsubmit (Binary64.isNaN_of_le_right hclock)] at hnot
    exact (of_nextEvent?_eq_none hevent).1 pod hpod hnot
  obtain ⟨a, ha, rfl⟩ := h.exists_try hpod hready
  obtain ⟨hsound, hclock⟩ := h.chain.sound a ha
  refine ⟨a, ha, rfl, hclock, ?_⟩
  intro j hj
  exact (hsound.trial.declined (bookings_eq_nil.1 hplaced a ha) j hj).1

/-- After a pass without placements that leaves nothing to wait for, nothing runs on an active node. -/
theorem pods_eq_nil (h : Tried policy active s log cluster) (hplaced : bookings log = [])
    (hevent : nextEvent? s.pending cluster.nodes active s.clock = none) (hlog : log ≠ [])
    (hbefore : ∀ a ∈ log, ∀ j : Fin n, a.before.nodes[j].Regular)
    (hafter : ∀ j : Fin n, cluster.nodes[j].Regular) {j : Fin n} (hj : j ∈ active) :
    cluster.nodes[j].pods = [] := by
  have hleft : log = [] ∨ ∀ p ∈ cluster.nodes[j].pods, ¬ p.finish ≤ s.clock := by
    refine h.chain.invariant (P := fun done c =>
      done = [] ∨ ∀ p ∈ c.nodes[j].pods, ¬ p.finish ≤ s.clock) ?_ [] (.inl rfl)
    intro done a ha _
    obtain ⟨hsound, hclock⟩ := h.chain.sound a ha
    rw [← hclock]
    exact .inr (hsound.not_finish_le (bookings_eq_nil.1 hplaced a ha) hj (hbefore a ha j).sorted)
  obtain ⟨a, ha⟩ := List.exists_mem_of_ne_nil log hlog
  obtain ⟨hsound, hclock⟩ := h.chain.sound a ha
  rw [List.eq_nil_iff_forall_not_mem]
  intro p hp
  -- A pod that has not finished finishes after the clock, so there would be an event.
  refine (of_nextEvent?_eq_none hevent).2 j hj p hp ?_
  rw [← Binary64.not_le_iff ((hafter j).finish p hp) (hclock ▸ hsound.clock_isNaN)]
  exact hleft.resolve_left hlog p hp

/-- Tries at the clock that place nothing leave every active node at the clock, each as the first one
does. -/
theorem eq_advance (h : Tried policy active s log cluster) (hplaced : bookings log = [])
    (hnow : policy.anticipates = false) :
    ∀ a ∈ log, ∀ j ∈ active, cluster.nodes[j] = a.before.nodes[j].advance s.clock := by
  refine h.chain.invariant (P := fun done c =>
    ∀ a ∈ done, ∀ j ∈ active, c.nodes[j] = a.before.nodes[j].advance s.clock) ?_ []
    fun a ha => absurd ha List.not_mem_nil
  intro done b hb hdone a ha j hj
  obtain ⟨hsound, hclock⟩ := h.chain.sound b hb
  have hafter := (hsound.trial.declined (bookings_eq_nil.1 hplaced b hb) j hj).2
  rw [hsound.offer_eq_clock hnow, hclock] at hafter
  rcases List.mem_append.1 ha with ha | ha
  · rw [hafter, hdone a ha j hj, Ledger.advance_advance_self]
  · rw [List.mem_singleton.1 ha, hafter]

/-- In the last pass an active node was empty already when it declined a pod, if pods start at the clock
or if all pods on the node finish at one instant. -/
theorem pods_advance_eq_nil (h : Tried policy active s log cluster) (hplaced : bookings log = [])
    (hevent : nextEvent? s.pending cluster.nodes active s.clock = none)
    (hbefore : ∀ a ∈ log, ∀ j : Fin n, a.before.nodes[j].Regular)
    (hafter : ∀ j : Fin n, cluster.nodes[j].Regular) {a : Attempt n} (ha : a ∈ log) {j : Fin n}
    (hj : j ∈ active) (htogether : policy.anticipates = true → a.before.nodes[j].Together) :
    (a.before.nodes[j].advance (a.before.offer a.pod a.clock j)).pods = [] := by
  obtain ⟨hsound, hclock⟩ := h.chain.sound a ha
  cases hahead : policy.anticipates with
  | true =>
    exact (hbefore a ha j).sorted.pods_advance_eq_nil (htogether hahead)
      (hsound.earliestFree_le_offer hahead (hbefore a ha j).earliestFree_isNaN)
  | false =>
    rw [hsound.offer_eq_clock hahead, hclock, ← h.eq_advance hplaced hahead a ha j hj]
    exact h.pods_eq_nil hplaced hevent (List.ne_nil_of_mem ha) hbefore hafter hj

end Tried

/-! ### What is left -/

section Leftover

variable {s s' : State n} {log : List (Attempt n)} {status : Status}

/-- If a run ends for want of an event, a pod that is pending then was declined by every active node at
the last clock. These nodes are empty now, and a node was empty already when it declined if pods start
at the clock or if all pods on the node finish at one instant. -/
theorem Runs.exists_declined (h : Runs policy active s log s' status) (hs : s.Sound policy active)
    (hpending : ∀ pod ∈ s.pending, Ordinary pod) (hsubmit : ∀ pod ∈ s.pending, pod.submit.isNaN = false)
    (hinit : ∀ j : Fin n, s.cluster.nodes[j].Regular) {clock : Seconds} {count : Nat}
    (hstatus : status = .aborted (.noNextEvent clock count)) {pod : Pod} (hpod : pod ∈ s'.pending) :
    ∃ a ∈ log, a.pod = pod ∧ a.clock = clock ∧ ∀ j ∈ active,
      a.before.nodes[j].canAdmit pod.requests (a.before.offer a.pod a.clock j) = false ∧
        s'.cluster.nodes[j].pods = [] ∧
        ((policy.anticipates = true → ∀ j ∈ active, s.cluster.nodes[j].Together) →
          (a.before.nodes[j].advance (a.before.offer a.pod a.clock j)).pods = []) := by
  obtain ⟨hafter, hbefore⟩ := h.regular hpending hinit
  obtain ⟨t, done, last, rfl, ht, hsub, hlast⟩ := h.last hs
  have hlater : ∀ a ∈ last, a ∈ done ++ last := fun a ha => List.mem_append_right done ha
  subst hstatus
  cases hlast with
  | @stuck _ cluster htried hplaced hevent =>
    obtain ⟨a, ha, rfl, hclock, hdeclined⟩ := htried.exists_declined hplaced hevent ht.nonneg hpod
      (hsubmit pod (hsub.subset hpod))
    have hbefore' : ∀ a ∈ last, ∀ j : Fin n, a.before.nodes[j].Regular :=
      fun a ha => hbefore a (hlater a ha)
    refine ⟨a, hlater a ha, rfl, hclock, ?_⟩
    intro j hj
    refine ⟨hdeclined j hj, ?_, ?_⟩
    · exact htried.pods_eq_nil hplaced hevent (List.ne_nil_of_mem ha) hbefore' hafter hj
    · intro htogether
      refine htried.pods_advance_eq_nil hplaced hevent hbefore' hafter ha hj ?_
      intro hahead
      exact h.together hahead hpending hinit (htogether hahead) a (hlater a ha) j hj

end Leftover

/-- What is known of a pod that is left and of an active node when a simulation has ended in state `s`,
for want of an event, at `clock`. -/
structure Leftover (policy : Policy) (nodes : List Ledger) (pods : List Pod) (s : State nodes.length)
    (clock : Seconds) (pod : Pod) (j : Fin nodes.length) : Prop where
  /-- Nothing runs on the node. -/
  empty : s.cluster.nodes[j].pods = []
  /-- The pod would fit on the node exactly if the node admitted it on another try, at any instant. -/
  couldHost_iff : ∀ t, (nodes.get j).couldHost pod.requests = true ↔
    s.cluster.nodes[j].canAdmit pod.requests t = true
  /-- If it would, the node declined the pod at the last clock, with another pod still on it. -/
  declined : (nodes.get j).couldHost pod.requests = true →
    ∃ a ∈ history policy nodes pods, a.pod = pod ∧ a.clock = clock ∧
      a.before.nodes[j].canAdmit pod.requests (a.before.offer pod clock j) = false ∧
      (a.before.nodes[j].advance (a.before.offer pod clock j)).pods ≠ []
  /-- It would not if pods start at the clock, or if the pods on each given ledger finish at one
  instant. -/
  not_couldHost : (policy.anticipates = true → ∀ l ∈ nodes, l.isActive = true → l.Together) →
    ¬ (nodes.get j).couldHost pod.requests = true

section Simulations

variable {nodes : List Ledger} {pods : List Pod} {s : State nodes.length} {status : Status}

/-- What is known of a pod that is pending and of an active node when a simulation ends for want of an
event. -/
theorem leftover_of_pending (hregular : ∀ l ∈ nodes, l.Regular)
    (hsubmit : ∀ pod ∈ pods, pod.submit.isNaN = false) (hpods : ∀ pod ∈ pods, Ordinary pod)
    (h : Runs policy (activeNodes (positions nodes)) (initial policy (positions nodes) pods)
      (history policy nodes pods) s status) {clock : Seconds} {count : Nat}
    (hstatus : status = .aborted (.noNextEvent clock count)) {pod : Pod} (hpod : pod ∈ s.pending)
    {j : Fin nodes.length} (hj : (nodes.get j).isActive = true) :
    Leftover policy nodes pods s clock pod j := by
  have hgiven := (arrange_perm policy.jobOrder pods).subset
  have hinit : ∀ i : Fin nodes.length,
      (initial policy (positions nodes) pods).cluster.nodes[i].Regular :=
    fun i => hregular _ (List.getElem_mem i.isLt)
  have hpending : ∀ pod ∈ (initial policy (positions nodes) pods).pending, Ordinary pod :=
    fun pod hpod => hpods pod (hgiven hpod)
  obtain ⟨a, ha, rfl, rfl, hall⟩ := h.exists_declined (sound_initial policy (positions nodes) pods)
    hpending (fun pod hpod => hsubmit pod (hgiven hpod)) hinit hstatus hpod
  obtain ⟨hdeclined, hempty, hsettled⟩ := hall j (mem_activeNodes.2 hj)
  obtain ⟨hafter, hbefore⟩ := h.regular hpending hinit
  have hrequest : a.pod.requests.WholeCores := (hpending a.pod (h.sound a ha).2).1
  -- The capacity of the node is the same at the try, at the end and at the beginning.
  have hcapacity : a.before.nodes[j].capacity = (nodes.get j).capacity := (h.capacity_eq j).2 a ha
  have hcapacity' : s.cluster.nodes[j].capacity = (nodes.get j).capacity := (h.capacity_eq j).1
  have hactive : a.before.nodes[j].isActive = true := by rw [Ledger.isActive, hcapacity]; exact hj
  have hactive' : s.cluster.nodes[j].isActive = true := by rw [Ledger.isActive, hcapacity']; exact hj
  -- A node that was empty when it declined the pod could not host it.
  have hnot : (a.before.nodes[j].advance (a.before.offer a.pod a.clock j)).pods = [] →
      ¬ (nodes.get j).couldHost a.pod.requests = true := by
    intro hnone hcould
    rw [← Ledger.couldHost_congr hcapacity,
      (hbefore a ha j).couldHost_iff_canAdmit hrequest hactive hnone, hdeclined] at hcould
    cases hcould
  refine ⟨hempty, ?_, ?_, ?_⟩
  · intro t
    have hstill : (s.cluster.nodes[j].advance t).pods = [] := by
      have hsub := Ledger.pods_advance_subperm s.cluster.nodes[j] t
      rw [hempty] at hsub
      exact List.subperm_nil.1 hsub
    rw [← Ledger.couldHost_congr hcapacity']
    exact (hafter j).couldHost_iff_canAdmit hrequest hactive' hstill
  · intro hcould
    exact ⟨a, ha, rfl, rfl, hdeclined, fun hnone => hnot hnone hcould⟩
  · intro htogether
    refine hnot (hsettled ?_)
    intro hahead i hi
    exact htogether hahead _ (List.getElem_mem i.isLt) (mem_activeNodes.1 hi)

end Simulations

/-- If a simulation from ledgers that accepted assignments led to ends for want of an event, all active
nodes are empty. A pod without a record would fit on one of them exactly if the node admitted it on
another try, and then the node had declined it while another pod was still there. This does not happen
if pods start at the clock, or if the pods on each given ledger finish at one instant. -/
theorem runPolicy_leftover_of_abort (policy : Policy) (nodes : List Ledger) (pods : List Pod)
    (hreached : ∀ l ∈ nodes, l.Reached) (hids : (pods.map Pod.id).Nodup)
    (hsubmit : ∀ pod ∈ pods, pod.submit.isFinite = true)
    (hrequests : ∀ pod ∈ pods, pod.requests.WholeCores)
    (hdurations : ∀ pod ∈ pods, pod.duration.isFinite = true) : ∃ outcome s,
      runPolicy policy nodes pods = .ok outcome ∧ Ends policy nodes pods s outcome.status ∧
        outcome.schedule.records =
          (bookings (history policy nodes pods)).map (Booking.record (positions nodes)) ∧
        ∀ clock count, outcome.status = .aborted (.noNextEvent clock count) →
          ∀ pod ∈ pods, (∀ b ∈ bookings (history policy nodes pods), b.pod ≠ pod) →
            ∀ j : Fin nodes.length, (nodes.get j).isActive = true →
              Leftover policy nodes pods s clock pod j := by
  obtain ⟨s, status, hends, hruns⟩ := ends_spec policy nodes pods
  refine ⟨_, s, hends.runPolicy_eq, hends, hruns.records_eq, ?_⟩
  intro clock count hstatus pod hpod hnot j hj
  refine leftover_of_pending (fun l hl => (hreached l hl).regular)
    (fun pod hpod => Binary64.isNaN_of_isFinite (hsubmit pod hpod))
    (fun pod hpod => ⟨hrequests pod hpod, hdurations pod hpod⟩) hruns hstatus ?_ hj
  -- Every given pod is booked or pending.
  rcases List.mem_append.1 ((hruns.pods_perm hids).mem_iff.2 hpod) with hbooked | hpending
  · obtain ⟨b, hb, heq⟩ := List.mem_map.1 hbooked
    exact absurd heq (hnot b hb)
  · exact hpending

/-- A node with two pods that finish at 10 and at 20. -/
def busyNodes : List Ledger :=
  [(((Ledger.idle "a" (.ofCpu (.ofNat 4))).assign 100 10 (.ofCpu (.ofNat 2)) 0).1.assign 101 20
    (.ofCpu (.ofNat 2)) 0).1]

/-- Two pods, the longer one first. It needs the whole node, and the other one needs more than that. -/
def queuedPods : List Pod := [.ofCores 1 0 20 4, .ofCores 2 0 10 8]

/-- Accepted assignments led to the node with two pods. -/
theorem reached_busyNodes : ∀ l ∈ busyNodes, l.Reached := by
  intro l hl
  rw [busyNodes, List.mem_singleton] at hl
  rw [hl]
  have hrequest : (Resources.ofCpu (.ofNat 2)).WholeCores := Resources.wholeCores_ofCpu (by decide)
  have hidle : (Ledger.idle "a" (.ofCpu (.ofNat 4))).Reached :=
    .idle "a" (Resources.wholeCores_ofCpu (by decide))
  have hfirst : ((Ledger.idle "a" (.ofCpu (.ofNat 4))).assign 100 10 (.ofCpu (.ofNat 2)) 0).2 =
      .ok 10 := by decide +kernel
  have hsecond : (((Ledger.idle "a" (.ofCpu (.ofNat 4))).assign 100 10 (.ofCpu (.ofNat 2)) 0).1.assign
      101 20 (.ofCpu (.ofNat 2)) 0).2 = .ok 20 := by decide +kernel
  refine .assign (.assign hidle hrequest ?_ ?_ hfirst) hrequest ?_ ?_ hsecond <;> decide +kernel

/-- What is left of the two pods on the node with two pods. -/
theorem runPolicy_leftover_of_abort_busyNodes : ∃ outcome s,
    runPolicy Heuristic.longestJobFirst.policy busyNodes queuedPods = .ok outcome ∧
      Ends Heuristic.longestJobFirst.policy busyNodes queuedPods s outcome.status ∧
      outcome.schedule.records =
        (bookings (history Heuristic.longestJobFirst.policy busyNodes queuedPods)).map
          (Booking.record (positions busyNodes)) ∧
      ∀ clock count, outcome.status = .aborted (.noNextEvent clock count) → ∀ pod ∈ queuedPods,
        (∀ b ∈ bookings (history Heuristic.longestJobFirst.policy busyNodes queuedPods), b.pod ≠ pod) →
          ∀ j : Fin busyNodes.length, (busyNodes.get j).isActive = true →
            Leftover Heuristic.longestJobFirst.policy busyNodes queuedPods s clock pod j := by
  refine runPolicy_leftover_of_abort _ _ _ reached_busyNodes (by decide) (by decide +kernel) ?_
    (by decide +kernel)
  simp [queuedPods, Pod.ofCores, Resources.wholeCores_ofCpu]

/-- A pod that would fit can be left: on the node with two pods the first pod is declined at 10, when
one of the two is still there, and the second pod is declined at 20, when the node is empty. Then
nothing is left to wait for, although the first pod would fit. -/
theorem exists_couldHost_of_abort :
    Heuristic.longestJobFirst.policy.anticipates = true ∧ (∀ l ∈ busyNodes, l.Reached) ∧
      (queuedPods.map Pod.id).Nodup ∧ ∃ outcome,
        runPolicy Heuristic.longestJobFirst.policy busyNodes queuedPods = .ok outcome ∧
          outcome.status = .aborted (.noNextEvent 0 2) ∧ outcome.schedule.records = [] ∧
          ∃ l ∈ busyNodes, ∃ pod ∈ queuedPods, l.couldHost pod.requests = true := by
  refine ⟨rfl, reached_busyNodes, by decide, ?_⟩
  exact exists_outcome_of_any (by decide +kernel)

end Simulation

end PodPlacement
