import PodPlacement.Proofs.Ledger.Solvent
import PodPlacement.Proofs.Policy
import PodPlacement.Proofs.Simulation.Abort

/-! # First come, first served

Pods that are tried in the order of their submission and start at the clock or not at all may overtake
one another: a small pod fits where a larger one did not. But a pod is not overtaken by one that asks for
at least as much. In the pass that places the later pod, the earlier one is tried first, and what a node
declined it still declines when the later pod is tried, since the pods placed in between only take.

There is one gap. A pod that leaves as soon as it starts gives back what it took before the next try, and
that may be more CPU than the node had: the tolerance admits a request slightly above what is available,
and the difference is cut at zero.

* `Attempt.Inflates` — a try that leaves more CPU on a node than there was.
* `Chain.canAdmit_eq_false` — a node that declined keeps declining, or a try inflated it.
* `KeepsPlace` — a pod is booked no later than another one, or a try in between inflated the node;
  `Tried.keepsPlace`, `Runs.keepsPlace` — so it is in a pass and in a run.
* `runPolicy_fair` — so it is in a simulation; there is no gap if every pod finishes after its start, or
  if all amounts are whole. `exists_overtaken` — the gap exists. -/

namespace PodPlacement

namespace Simulation

variable {n : Nat} {policy : Policy} {active : List (Fin n)}

/-! ### Declined pods -/

/-- The try placed a pod on node `j` that left at once, and left more CPU there than there was. -/
structure Attempt.Inflates (x : Attempt n) (j : Fin n) : Prop where
  /-- The pod was placed on the node and finished no later than it started. -/
  placed : ∃ p, x.placement? = some p ∧ p.node = j ∧ p.finish ≤ p.start
  /-- Taking its request away and giving it back leaves more CPU. -/
  raised : (x.before.nodes[j].advance x.clock).available.RaisedBy x.pod.requests

/-- A try at the clock does not make a node admit what it declined, or it inflates the node. -/
theorem Attempt.Sound.canAdmit_eq_false {a : Attempt n} (h : a.Sound policy active)
    (hnow : policy.anticipates = false) {j : Fin n} (hsolvent : a.before.nodes[j].Solvent)
    (hpod : 0 ≤ a.pod.requests.cpu) {request : Resources} (hrequest : 0 ≤ request.cpu)
    (hdeclined : a.before.nodes[j].canAdmit request a.clock = false) :
    a.after.nodes[j].canAdmit request a.clock = false ∨ a.Inflates j := by
  rcases h.trial.ledger j with ⟨-, hj | hj⟩ | ⟨p, hp, hpj, hstart, hadmits, hj⟩
  · left
    rwa [hj]
  · left
    rwa [hj, h.offer_eq_clock hnow, Ledger.canAdmit_advance_self]
  · rw [h.offer_eq_clock hnow] at hstart hadmits hj
    rw [hj]
    rcases hsolvent.canAdmit_host hpod hrequest hadmits hdeclined with hstill | ⟨hleaves, hraised⟩
    · exact .inl hstill
    · refine .inr ⟨⟨p, hp, hpj, ?_⟩, hraised⟩
      rwa [(h.trial.hosted p hp).2.2.1, hstart]

/-- A node that declined a request before some tries declines it after them, or one of them inflated the
node. -/
theorem Chain.canAdmit_eq_false {clock : Seconds} {cluster cluster' : Cluster n}
    {log : List (Attempt n)} (h : Chain policy active clock cluster log cluster')
    (hnow : policy.anticipates = false) {j : Fin n} (hsolvent : ∀ x ∈ log, x.before.nodes[j].Solvent)
    (hpods : ∀ x ∈ log, 0 ≤ x.pod.requests.cpu) {request : Resources} (hrequest : 0 ≤ request.cpu)
    (hdeclined : cluster.nodes[j].canAdmit request clock = false) :
    cluster'.nodes[j].canAdmit request clock = false ∨ ∃ x ∈ log, x.Inflates j := by
  refine h.invariant (P := fun done c =>
    c.nodes[j].canAdmit request clock = false ∨ ∃ x ∈ done, x.Inflates j) ?_ [] (.inl hdeclined)
  rintro done a ha (hbefore | ⟨x, hx, hinflates⟩)
  · obtain ⟨hsound, hclock⟩ := h.sound a ha
    rw [← hclock] at hbefore ⊢
    rcases hsound.canAdmit_eq_false hnow (hsolvent a ha) (hpods a ha) hrequest hbefore with
      hafter | hinflates
    · exact .inl hafter
    · exact .inr ⟨a, List.mem_append_right done List.mem_cons_self, hinflates⟩
  · exact .inr ⟨x, List.mem_append_left _ hx, hinflates⟩

/-! ### Overtaking -/

/-- Between the pod `a` and the booking `b` that overtook it, the try `x` inflated the node of `b`. -/
structure Lapse (a : Pod) (b : Booking n) (x : Attempt n) : Prop where
  /-- The try was made when `b` started. -/
  clock : x.clock = b.start
  /-- Its pod comes after `a`. -/
  after : PodOrder.fifo.before a x.pod = .lt
  /-- Its pod comes before that of `b`. -/
  before : PodOrder.fifo.before x.pod b.pod = .lt
  /-- It inflated the node of `b`. -/
  inflates : x.Inflates b.node

/-- In the log the pod `a` is booked no later than `b`, or a try in between inflated the node of `b`. -/
def KeepsPlace (log : List (Attempt n)) (a : Pod) (b : Booking n) : Prop :=
  (∃ b' ∈ bookings log, b'.pod = a ∧ b'.start ≤ b.start) ∨ ∃ x ∈ log, Lapse a b x

/-- In a longer log a pod keeps its place. -/
theorem KeepsPlace.mono {log log' : List (Attempt n)} {a : Pod} {b : Booking n}
    (h : KeepsPlace log a b) (hsub : log ⊆ log') : KeepsPlace log' a b := by
  rcases h with ⟨b', hb', hfair⟩ | ⟨x, hx, hlapse⟩
  · obtain ⟨x, hx, hplaced⟩ := mem_bookings.1 hb'
    exact .inl ⟨b', mem_bookings.2 ⟨x, hsub hx, hplaced⟩, hfair⟩
  · exact .inr ⟨x, hsub hx, hlapse⟩

/-- The tries of a pass are made in the order of submission. -/
theorem Tried.pairwise_before {s : State n} {log : List (Attempt n)} {cluster : Cluster n}
    (h : Tried policy active s log cluster) (hfifo : policy.podOrder = .fifo)
    (hids : (s.pending.map Pod.id).Nodup) :
    log.Pairwise fun x y => PodOrder.fifo.before x.pod y.pod = .lt := by
  have hpods := h.pods
  rw [hfifo] at hpods
  have hsorted := PodOrder.fifo.pairwise_readyPods s.pending s.clock
  have hdistinct : ((PodOrder.fifo.readyPods s.pending s.clock).map Pod.id).Nodup :=
    ((readyPods_perm _ _ _).map Pod.id).nodup_iff.2 (hids.sublist (List.filter_sublist.map Pod.id))
  rw [← hpods, List.pairwise_map] at hsorted
  rw [← hpods, List.map_map, List.Nodup, List.pairwise_map] at hdistinct
  exact (hsorted.and hdistinct).imp fun ⟨hle, hid⟩ => PodOrder.fifo_before_eq_lt hle hid

/-- In a pass, a pod keeps its place before a later one that asks for at least as much. -/
theorem Tried.keepsPlace {s : State n} {log : List (Attempt n)} {cluster : Cluster n}
    (h : Tried policy active s log cluster) (hnow : policy.anticipates = false)
    (hfifo : policy.podOrder = .fifo) (hids : (s.pending.map Pod.id).Nodup)
    (hsolvent : ∀ x ∈ log, ∀ j : Fin n, x.before.nodes[j].Solvent)
    (hrequests : ∀ pod ∈ s.pending, 0 ≤ pod.requests.cpu) {a : Pod} (ha : a ∈ s.pending) {b : Booking n}
    (hb : b ∈ bookings log) (hbefore : PodOrder.fifo.before a b.pod = .lt)
    (hwithin : a.requests.Within b.pod.requests) : KeepsPlace log a b := by
  have hsorted := h.pairwise_before hfifo hids
  obtain ⟨y, hy, hplaced, hypod⟩ := mem_bookings.1 hb
  obtain ⟨hysound, hyclock⟩ := h.chain.sound y hy
  have hstart : b.start = s.clock := by rw [hysound.start_eq_clock hnow hplaced, hyclock]
  -- The earlier pod is ready as well, so it is tried in this pass.
  have hsubmit : b.pod.submit ≤ s.clock := by
    rw [← hypod, ← hyclock]
    exact hysound.submitted
  obtain ⟨x, hx, rfl⟩ := h.exists_try ha
    (Binary64.le_of_rank_le (PodOrder.rank_submit_le_of_fifo_before hbefore) hsubmit)
  rw [← hypod] at hbefore hwithin
  obtain ⟨hxsound, hxclock⟩ := h.chain.sound x hx
  cases hp : x.placement? with
  | some p =>
    refine .inl ⟨⟨p, x.pod⟩, mem_bookings.2 ⟨x, hx, hp, rfl⟩, rfl, ?_⟩
    show p.start ≤ b.start
    rw [hxsound.start_eq_clock hnow hp, hxclock, ← hstart]
    exact Binary64.le_refl (by rw [hstart, ← hxclock]; exact hxsound.clock_isNaN)
  | none =>
    right
    -- The later pod is tried after the earlier one, which was declined then.
    obtain ⟨before, between, after, rfl, hbetween⟩ := exists_between
      (fun hlt => ne_lt_of_isLE (Ordering.isLE_of_eq_lt hlt)) hsorted hx hy hbefore
    obtain ⟨hnode, -, -, hadmits, -⟩ := hysound.trial.hosted _ hplaced
    obtain ⟨hdeclined, hadvanced⟩ := hxsound.trial.declined hp b.node hnode
    rw [hxsound.offer_eq_clock hnow, hxclock] at hdeclined hadvanced
    have hfirst : x.after.nodes[b.node].canAdmit x.pod.requests s.clock = false := by
      rwa [hadvanced, Ledger.canAdmit_advance_self]
    have hmem {z : Attempt n} (hz : z ∈ between) : z ∈ before ++ x :: (between ++ y :: after) := by
      simp [hz]
    obtain ⟨c, -, hchain⟩ := h.chain.split
    cases hchain with
    | cons _ _ hchain =>
      obtain ⟨c, hchain, hlast⟩ := hchain.split
      rcases hchain.canAdmit_eq_false hnow (fun z hz => hsolvent z (hmem hz) b.node)
        (fun z hz => hrequests _ (h.mem_pending z (hmem hz))) (hrequests _ ha) hfirst with
        hstill | ⟨z, hz, hinflates⟩
      · -- The node would admit the earlier pod together with the later one.
        cases hlast with
        | cons =>
          rw [hstart] at hadmits
          rw [(hsolvent y hy b.node).canAdmit_of_within hwithin hadmits] at hstill
          cases hstill
      · obtain ⟨hafter, hprior⟩ := hbetween z hz
        rw [hypod] at hprior
        refine ⟨z, hmem hz, ?_, hafter, hprior, hinflates⟩
        rw [(h.chain.sound z (hmem hz)).2, hstart]

section Runs

variable {s s' : State n} {log : List (Attempt n)} {a : Pod} {b : Booking n}

/-- In a step, a pod keeps its place before a later one that asks for at least as much. -/
theorem Transition.keepsPlace {status? : Option Status} (h : Transition policy active s log s' status?)
    (hnow : policy.anticipates = false) (hfifo : policy.podOrder = .fifo)
    (hids : (s.pending.map Pod.id).Nodup) (hsolvent : ∀ x ∈ log, ∀ j : Fin n, x.before.nodes[j].Solvent)
    (hrequests : ∀ pod ∈ s.pending, 0 ≤ pod.requests.cpu) (ha : a ∈ s.pending) (hb : b ∈ bookings log)
    (hbefore : PodOrder.fifo.before a b.pod = .lt) (hwithin : a.requests.Within b.pod.requests) :
    KeepsPlace log a b := by
  cases h with
  | completed | noActiveNodes => cases hb
  | placed htried | waited htried | stuck htried =>
    exact htried.keepsPlace hnow hfifo hids hsolvent hrequests ha hb hbefore hwithin

/-- In a run, a pod keeps its place before a later one that asks for at least as much. -/
theorem Runs.keepsPlace {status : Status} (h : Runs policy active s log s' status)
    (hnow : policy.anticipates = false) (hfifo : policy.podOrder = .fifo)
    (hids : (s.pending.map Pod.id).Nodup) (hsolvent : ∀ x ∈ log, ∀ j : Fin n, x.before.nodes[j].Solvent)
    (hrequests : ∀ pod ∈ s.pending, 0 ≤ pod.requests.cpu) (ha : a ∈ s.pending) (hb : b ∈ bookings log)
    (hbefore : PodOrder.fifo.before a b.pod = .lt) (hwithin : a.requests.Within b.pod.requests) :
    KeepsPlace log a b := by
  induction h with
  | stop hstep =>
    exact hstep.keepsPlace hnow hfifo hids hsolvent hrequests ha hb hbefore hwithin
  | @next s t s' log rest status hstep hrest ih =>
    have hpair := (Runs.next hstep hrest).pairwise_start hnow
    have hsub := hstep.pending_sublist
    rw [bookings_append] at hb hpair
    rcases List.mem_append.1 hb with hb | hb
    · have hfirst := hstep.keepsPlace hnow hfifo hids
        (fun x hx => hsolvent x (List.mem_append_left _ hx)) hrequests ha hb hbefore hwithin
      exact hfirst.mono (List.subset_append_left _ _)
    rcases List.mem_append.1 ((hstep.pending_perm hids).mem_iff.2 ha) with hbooked | hpending
    · -- A pod that is booked in an earlier step starts no later.
      obtain ⟨b', hb', rfl⟩ := List.mem_map.1 hbooked
      refine .inl ⟨b', ?_, rfl, (List.pairwise_append.1 hpair).2.2 b' hb' b hb⟩
      rw [bookings_append]
      exact List.mem_append_left _ hb'
    · have hlater := ih (hids.sublist (hsub.map Pod.id))
        (fun x hx => hsolvent x (List.mem_append_right _ hx))
        (fun pod hpod => hrequests pod (hsub.subset hpod)) hpending hb
      exact hlater.mono (List.subset_append_right _ _)

/-- Along a run, solvent ledgers stay so. -/
theorem Runs.solvent {status : Status} (h : Runs policy active s log s' status)
    (hrequests : ∀ pod ∈ s.pending, 0 ≤ pod.requests.cpu)
    (hinit : ∀ j : Fin n, s.cluster.nodes[j].Solvent) :
    ∀ x ∈ log, ∀ j : Fin n, x.before.nodes[j].Solvent :=
  (h.ledger_invariant (Q := fun _ l => l.Solvent) (K := fun pod => 0 ≤ pod.requests.cpu)
    (fun _ _ t hl => hl.advance t) (fun _ _ _ hpod hl _ => hl.host hpod _) hrequests hinit).2

/-- A try that inflates a node books a pod that finishes no later than it starts. -/
theorem Attempt.Inflates.exists_booking {x : Attempt n} {j : Fin n} (h : x.Inflates j) (hx : x ∈ log) :
    ∃ b ∈ bookings log, b.finish ≤ b.start := by
  obtain ⟨p, hp, -, hleaves⟩ := h.placed
  exact ⟨⟨p, x.pod⟩, mem_bookings.2 ⟨x, hx, hp, rfl⟩, hleaves⟩

/-- On a ledger in order, no try with a whole request inflates the node. -/
theorem Attempt.Sound.not_inflates {x : Attempt n} (h : x.Sound policy active)
    (hnow : policy.anticipates = false) {j : Fin n} (hregular : x.before.nodes[j].Regular)
    (hpod : x.pod.requests.WholeCores) : ¬ x.Inflates j := by
  rintro ⟨⟨p, hp, rfl, -⟩, hraised⟩
  obtain ⟨-, -, -, hadmits, -⟩ := h.trial.hosted p hp
  rw [h.start_eq_clock hnow hp, Ledger.canAdmit_iff] at hadmits
  exact (hregular.advance x.clock).cpu.available.not_raisedBy hpod hadmits hraised

end Runs

/-! ### Fairness of a simulation -/

/-- No pod is overtaken by one that comes later and asks for at least as much. -/
def Fair (pods : List Pod) (booked : List (Booking n)) : Prop :=
  ∀ a ∈ pods, ∀ b ∈ booked, PodOrder.fifo.before a b.pod = .lt → a.requests.Within b.pod.requests →
    ∃ b' ∈ booked, b'.pod = a ∧ b'.start ≤ b.start

/-- Suppose that pods are tried in the order of their submission and start at the clock or not at all, on
ledgers in any state. If a pod is booked, then so is every pod that comes before it and asks for no more,
and that one starts no later, unless there is a lapse: in between, a pod was placed on the same node at
the same instant, left at once and left more CPU there than there was. There is none if all booked pods
finish after their start, or if all amounts are whole. -/
theorem runPolicy_fair {policy : Policy} (hnow : policy.anticipates = false)
    (hfifo : policy.podOrder = .fifo) {nodes : List Ledger} (hnodes : ∀ l ∈ nodes, l.Reachable)
    {pods : List Pod} (hids : (pods.map Pod.id).Nodup)
    (hrequests : ∀ pod ∈ pods, 0 ≤ pod.requests.cpu) : ∃ outcome booked,
      runPolicy policy nodes pods = .ok outcome ∧
        outcome.schedule.records = booked.map (Booking.record (positions nodes)) ∧
        (∀ a ∈ pods, ∀ b ∈ booked, PodOrder.fifo.before a b.pod = .lt →
          a.requests.Within b.pod.requests → (∃ b' ∈ booked, b'.pod = a ∧ b'.start ≤ b.start) ∨
            ∃ x ∈ history policy nodes pods, Lapse a b x) ∧
        ((∀ b ∈ booked, b.start < b.finish) → Fair pods booked) ∧
        ((∀ l ∈ nodes, l.Reached) → (∀ pod ∈ pods, Ordinary pod) → Fair pods booked) := by
  obtain ⟨s, status, hends, hruns⟩ := ends_spec policy nodes pods
  have hinit : (initial policy (positions nodes) pods).pending.Perm pods :=
    arrange_perm policy.jobOrder pods
  have hrequests' : ∀ pod ∈ (initial policy (positions nodes) pods).pending, 0 ≤ pod.requests.cpu :=
    fun pod hpod => hrequests pod (hinit.subset hpod)
  have hsolvent := hruns.solvent hrequests' fun j => (hnodes _ (List.getElem_mem j.isLt)).solvent
  have hplace : ∀ a ∈ pods, ∀ b ∈ bookings (history policy nodes pods),
      PodOrder.fifo.before a b.pod = .lt → a.requests.Within b.pod.requests →
        KeepsPlace (history policy nodes pods) a b := fun a ha b hb =>
    hruns.keepsPlace hnow hfifo ((hinit.map Pod.id).nodup_iff.2 hids) hsolvent hrequests'
      (hinit.mem_iff.2 ha) hb
  refine ⟨_, _, hends.runPolicy_eq, hruns.records_eq, hplace, ?_, ?_⟩
  · intro hlasts a ha b hb hbefore hwithin
    rcases hplace a ha b hb hbefore hwithin with hfair | ⟨x, hx, hlapse⟩
    · exact hfair
    · obtain ⟨b', hb', hleaves⟩ := hlapse.inflates.exists_booking hx
      exact absurd (hlasts b' hb') (Binary64.not_lt_of_le hleaves)
  · intro hreached hpods a ha b hb hbefore hwithin
    have hregular := hruns.regular (fun pod hpod => hpods pod (hinit.subset hpod))
      fun j => (hreached _ (List.getElem_mem j.isLt)).regular
    rcases hplace a ha b hb hbefore hwithin with hfair | ⟨x, hx, hlapse⟩
    · exact hfair
    · obtain ⟨hsound, hpending⟩ := hruns.sound x hx
      exact absurd hlapse.inflates (hsound.not_inflates hnow (hregular.2 x hx b.node)
        (hpods _ (hinit.subset hpending)).1)

/-- Of two pods that need the whole node each, the one that comes first is not overtaken. -/
theorem runPolicy_fair_pair : ∃ outcome booked,
    runPolicy Heuristic.firstFit.policy [.idle "a" (.ofCpu 2)] [.ofCores 1 0 10 2, .ofCores 2 0 5 2] =
        .ok outcome ∧
      outcome.schedule.records = booked.map (Booking.record (positions [.idle "a" (.ofCpu 2)])) ∧
      (∀ a ∈ [Pod.ofCores 1 0 10 2, .ofCores 2 0 5 2], ∀ b ∈ booked,
        PodOrder.fifo.before a b.pod = .lt → a.requests.Within b.pod.requests →
          (∃ b' ∈ booked, b'.pod = a ∧ b'.start ≤ b.start) ∨
            ∃ x ∈ history Heuristic.firstFit.policy [.idle "a" (.ofCpu 2)]
              [.ofCores 1 0 10 2, .ofCores 2 0 5 2], Lapse a b x) ∧
      ((∀ b ∈ booked, b.start < b.finish) → Fair [.ofCores 1 0 10 2, .ofCores 2 0 5 2] booked) ∧
      ((∀ l ∈ [Ledger.idle "a" (.ofCpu 2)], l.Reached) →
        (∀ pod ∈ [Pod.ofCores 1 0 10 2, .ofCores 2 0 5 2], Ordinary pod) →
          Fair [.ofCores 1 0 10 2, .ofCores 2 0 5 2] booked) := by
  refine runPolicy_fair rfl rfl ?_ (by decide) (by decide +kernel)
  intro l hl
  rw [List.mem_singleton] at hl
  rw [hl]
  exact .idle "a" (Resources.nonneg_ofAmounts _ _ _)

/-- A pod that asks for slightly more than one core, and more than the tolerance allows. -/
def overtakenPod : Pod := { Pod.ofCpu 1 0 10 1.0000000015 with name := "overtaken" }

/-- A pod that asks for slightly more than one core, within the tolerance, and takes no time. -/
def briefPod : Pod := { Pod.ofCpu 2 0 0 1.0000000009 with name := "brief" }

/-- A pod that asks for what the overtaken one asks for, and comes last. -/
def overtakingPod : Pod := { Pod.ofCpu 3 0 10 1.0000000015 with name := "overtaking" }

/-- A pod can be overtaken by one that asks for the same: on a node with one core the brief pod is given
more CPU than there is, all of which comes back. Then the node admits the last pod, which it would not
have admitted before, and the first pod waits until that one has finished. -/
theorem exists_overtaken :
    Heuristic.firstFit.policy.anticipates = false ∧ Heuristic.firstFit.policy.podOrder = .fifo ∧
      (Ledger.idle "a" (.ofCpu 1)).Reachable ∧
      ([overtakenPod, briefPod, overtakingPod].map Pod.id).Nodup ∧
      (∀ pod ∈ [overtakenPod, briefPod, overtakingPod], 0 ≤ pod.requests.cpu ∧
        pod.submit.isFinite = true ∧ pod.duration.isFinite = true ∧ 0 ≤ pod.duration) ∧
      PodOrder.fifo.before overtakenPod overtakingPod = .lt ∧
      overtakenPod.requests.Within overtakingPod.requests ∧ ∃ outcome,
        runPolicy Heuristic.firstFit.policy [.idle "a" (.ofCpu 1)]
            [overtakenPod, briefPod, overtakingPod] = .ok outcome ∧
          outcome.schedule.records.map (fun r => (r.pod, r.start)) =
            [("brief", 0), ("overtaking", 0), ("overtaken", 10)] := by
  refine ⟨rfl, rfl, .idle "a" (Resources.nonneg_ofAmounts _ _ _), by decide, by decide +kernel, by decide +kernel,
    Resources.within_self (r := overtakenPod.requests) (Resources.nonneg_ofAmounts _ _ _), ?_⟩
  exact exists_outcome_of_any (by decide +kernel)

end Simulation

end PodPlacement
