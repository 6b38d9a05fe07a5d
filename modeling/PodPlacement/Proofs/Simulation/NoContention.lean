import PodPlacement.Proofs.Ledger.Room
import PodPlacement.Proofs.Simulation.WorkConserving

/-! # No contention, no waiting

If one idle active node has room for all pods together, every pod finds a node in the first pass after its
submission, wherever the others went. That pass is made at most one tick after the submission: the clock
moves to the next event, which is no later than any submission ahead, or by a tick.

* `Chain.roomy`, `Tried.roomy` — in a pass every ready pod is placed, and there is room for the rest.
* `OnTime`, `Uncontended`, `Transition.uncontended` — what a step preserves.
* `Runs.uncontended` — no run stops before all pods are placed, on time.
* `Prompt`, `runPolicy_prompt` — what this means for the records. -/

namespace PodPlacement

variable {n : Nat} {active : List (Fin n)} {j : Fin n}

/-- A pod an active node has room for is placed, and the node has room for the rest afterwards. -/
theorem Cluster.Trial.roomy {pod : Pod} {offer : Fin n → Seconds} {nodes nodes' : Nodes n}
    {placement? : Option (Placement n)} (h : Trial active pod offer nodes nodes' placement?)
    (hj : j ∈ active) (hpod : pod.requests.WholeCores) {rs : List Resources}
    (hroom : nodes[j].Roomy (pod.requests :: rs)) : placement?.isSome = true ∧ nodes'[j].Roomy rs := by
  have hrest : nodes[j].Roomy rs := hroom.of_subperm (List.sublist_cons_self _ rs).subperm
  constructor
  · rw [Option.isSome_iff_ne_none]
    intro hnone
    have hdeclined := (h.declined hnone j hj).1
    rw [hroom.canAdmit hpod] at hdeclined
    cases hdeclined
  · rcases h.ledger j with ⟨-, hsame | hadvanced⟩ | ⟨p, -, -, -, -, hhosts⟩
    · rwa [hsame]
    · rw [hadvanced]
      exact hrest.advance _
    · rw [hhosts]
      exact hroom.host hpod _

namespace Simulation

variable {policy : Policy}

/-! ### Passes -/

/-- Tries on pods an active node has room for all place their pods, and the node has room for the rest
afterwards. -/
theorem Chain.roomy {clock : Seconds} {cluster cluster' : Cluster n} {log : List (Attempt n)}
    (h : Chain policy active clock cluster log cluster') (hj : j ∈ active)
    (hwhole : ∀ a ∈ log, a.pod.requests.WholeCores) {rs : List Resources}
    (hroom : cluster.nodes[j].Roomy (log.map (fun a => a.pod.requests) ++ rs)) :
    (∀ a ∈ log, a.placement?.isSome = true) ∧ cluster'.nodes[j].Roomy rs := by
  induction h with
  | nil => exact ⟨fun a ha => absurd ha List.not_mem_nil, hroom⟩
  | cons _ hsound _ ih =>
    obtain ⟨hpod, hwhole⟩ := List.forall_mem_cons.1 hwhole
    obtain ⟨hplaced, hrest⟩ := hsound.trial.roomy hj hpod hroom
    obtain ⟨hall, hend⟩ := ih hwhole hrest
    exact ⟨List.forall_mem_cons.2 ⟨hplaced, hall⟩, hend⟩

/-- What the pods that are tried ask for, with what the pending pods that are ahead ask for, is what all
pending pods ask for. -/
theorem Tried.requests_perm {s : State n} {log : List (Attempt n)} {cluster : Cluster n}
    (h : Tried policy active s log cluster) :
    (log.map (fun a => a.pod.requests) ++
      (s.pending.filter fun pod => !decide (pod.submit ≤ s.clock)).map Pod.requests).Perm
        (s.pending.map Pod.requests) := by
  have htried : (log.map fun a => a.pod.requests).Perm
      ((s.pending.filter fun pod => decide (pod.submit ≤ s.clock)).map Pod.requests) := by
    have hready := (readyPods_perm policy.podOrder s.pending s.clock).map Pod.requests
    rwa [← h.pods, List.map_map] at hready
  refine (htried.append_right _).trans ?_
  rw [← List.map_append]
  exact (List.filter_append_perm (fun pod => decide (pod.submit ≤ s.clock)) s.pending).map Pod.requests

/-- Where an active node has room for all pending pods, a pass leaves none pending that is ready, and the node
has room for the others afterwards. -/
theorem Tried.roomy {s : State n} {log : List (Attempt n)} {cluster : Cluster n}
    (h : Tried policy active s log cluster) (hj : j ∈ active)
    (hwhole : ∀ pod ∈ s.pending, pod.requests.WholeCores)
    (hroom : s.cluster.nodes[j].Roomy (s.pending.map Pod.requests)) {left : List Pod}
    (hleft : left = s.pending.filter fun p => !((bookings log).map fun b => b.pod.id).contains p.id) :
    (∀ pod ∈ left, ¬ pod.submit ≤ s.clock) ∧ cluster.nodes[j].Roomy (left.map Pod.requests) := by
  obtain ⟨hplaced, hrest⟩ := h.chain.roomy hj (fun a ha => hwhole _ (h.mem_pending a ha))
    (hroom.of_subperm h.requests_perm.subperm)
  have hlate : ∀ pod ∈ left, ¬ pod.submit ≤ s.clock := by
    rw [hleft]
    intro pod hpod hsubmit
    obtain ⟨hpending, hunbooked⟩ := List.mem_filter.1 hpod
    obtain ⟨a, ha, rfl⟩ := h.exists_try hpending hsubmit
    obtain ⟨p, hp⟩ := Option.isSome_iff_exists.1 (hplaced a ha)
    have hbooked : a.pod.id ∈ (bookings log).map fun b => b.pod.id :=
      List.mem_map.2 ⟨⟨p, a.pod⟩, mem_bookings.2 ⟨a, ha, hp, rfl⟩, rfl⟩
    rw [List.contains_iff_mem.2 hbooked] at hunbooked
    cases hunbooked
  refine ⟨hlate, ?_⟩
  have hsub : left.Sublist s.pending := by rw [hleft]; exact List.filter_sublist
  have hahead := hsub.filter fun pod => !decide (pod.submit ≤ s.clock)
  rw [List.filter_eq_self.2 fun pod hpod => by simp [hlate pod hpod]] at hahead
  exact hrest.of_subperm (hahead.map Pod.requests).subperm

/-- Where an active node has room for all pending pods, a pass that places none has none that is ready. -/
theorem Tried.roomy_of_idle {s : State n} {log : List (Attempt n)} {cluster : Cluster n}
    (h : Tried policy active s log cluster) (hplaced : bookings log = []) (hj : j ∈ active)
    (hwhole : ∀ pod ∈ s.pending, pod.requests.WholeCores)
    (hroom : s.cluster.nodes[j].Roomy (s.pending.map Pod.requests)) :
    (∀ pod ∈ s.pending, ¬ pod.submit ≤ s.clock) ∧ cluster.nodes[j].Roomy (s.pending.map Pod.requests) :=
  h.roomy hj hwhole hroom (by simp [hplaced])

/-! ### Steps -/

/-- The instant is at most one tick after the submission of the pod, and zero if the pod was submitted
then. -/
def OnTime (pod : Pod) (t : Seconds) : Prop := t ≤ pod.submit + clockTick ∧ (pod.submit ≤ 0 → t = 0)

/-- There is room for all pending pods on an active node, and none of them has been waiting for longer than
a tick. -/
structure Uncontended (j : Fin n) (s : State n) : Prop where
  /-- There is room for all pending pods on the node. -/
  room : s.cluster.nodes[j].Roomy (s.pending.map Pod.requests)
  /-- A pod that was submitted is on time. -/
  onTime : ∀ pod ∈ s.pending, pod.submit ≤ s.clock → OnTime pod s.clock

/-- What is asked of the pods: they are submitted at zero or later, and ask for whole cores. -/
def Modest (pod : Pod) : Prop := 0 ≤ pod.submit ∧ pod.requests.WholeCores

/-- The tick is a finite amount of time. -/
theorem clockTick_isFinite : clockTick.isFinite = true ∧ 0 ≤ clockTick := by decide +kernel

/-- Moving to a submission, or by a tick, stays on time for it. -/
theorem onTime_of_lt {pod : Pod} {clock t : Seconds} (hclock : 0 ≤ clock) (hahead : clock < pod.submit)
    (ht : t ≤ pod.submit.maxNum (clock + clockTick)) : OnTime pod t := by
  have hsubmit : 0 ≤ pod.submit := Binary64.le_trans hclock (Binary64.le_of_lt hahead)
  refine ⟨Binary64.le_trans ht (Binary64.maxNum_le ?_ ?_), ?_⟩
  · exact Binary64.le_add_right hsubmit clockTick_isFinite.2
  · exact Binary64.add_le_add_right (Binary64.le_of_lt hahead) clockTick_isFinite.1
  · intro hzero
    exact absurd (Binary64.lt_of_le_of_lt hclock hahead) (Binary64.not_lt_of_le hzero)

/-- A step keeps pods uncontended and tries each on time. It does not stop while pods are pending. -/
theorem Transition.uncontended {s s' : State n} {log : List (Attempt n)} {status? : Option Status}
    (h : Transition policy active s log s' status?) (hs : s.Sound policy active) (hj : j ∈ active)
    (hmodest : ∀ pod ∈ s.pending, Modest pod) (hu : Uncontended j s) :
    (∀ status, status? = some status → status = .completed) ∧ Uncontended j s' ∧
      ∀ a ∈ log, OnTime a.pod a.clock := by
  have hlog : ∀ a ∈ log, OnTime a.pod a.clock := by
    intro a ha
    obtain ⟨hsound, hclock⟩ := h.chain.sound a ha
    have hsubmit := hsound.submitted
    rw [hclock] at hsubmit ⊢
    exact hu.onTime a.pod (h.mem_pending a ha) hsubmit
  have hwhole : ∀ pod ∈ s.pending, pod.requests.WholeCores := fun pod hpod => (hmodest pod hpod).2
  have hnum : ∀ pod ∈ s.pending, pod.submit.isNaN = false :=
    fun pod hpod => Binary64.isNaN_of_le_right (hmodest pod hpod).1
  have hclock : s.clock.isNaN = false := Binary64.isNaN_of_le_right hs.nonneg
  cases h with
  | completed => exact ⟨fun _ h => (Option.some.inj h).symm, hu, hlog⟩
  | noActiveNodes _ hactive =>
    rw [hactive] at hj
    cases hj
  | placed htried hplaced =>
    obtain ⟨hlate, hroomy⟩ := htried.roomy hj hwhole hu.room rfl
    exact ⟨fun _ h => (by cases h), ⟨hroomy, fun pod hpod hready => absurd hready (hlate pod hpod)⟩, hlog⟩
  | waited htried hplaced hevent =>
    obtain ⟨hlate, hroomy⟩ := htried.roomy_of_idle hplaced hj hwhole hu.room
    refine ⟨fun _ h => (by cases h), ⟨hroomy, ?_⟩, hlog⟩
    intro pod hpod _
    have hahead := (Binary64.not_le_iff (hnum pod hpod) hclock).1 (hlate pod hpod)
    exact onTime_of_lt hs.nonneg hahead
      (IsEvent.clock_le ⟨hahead, .inl ⟨pod, hpod, rfl⟩⟩ hs.nonneg hevent)
  | stuck htried hplaced hevent =>
    -- A pod that is pending is ahead, and there would be an event.
    obtain ⟨pod, hpod⟩ := List.exists_mem_of_ne_nil _ htried.hasPending
    have hlate := (htried.roomy_of_idle hplaced hj hwhole hu.room).1 pod hpod
    exact absurd ((Binary64.not_le_iff (hnum pod hpod) hclock).1 hlate)
      ((of_nextEvent?_eq_none hevent).1 pod hpod)

/-! ### Runs -/

/-- A run on which pods are uncontended places all of them, each on time. -/
theorem Runs.uncontended {s s' : State n} {log : List (Attempt n)} {status : Status}
    (h : Runs policy active s log s' status) (hs : s.Sound policy active) (hj : j ∈ active)
    (hmodest : ∀ pod ∈ s.pending, Modest pod) (hu : Uncontended j s) :
    status = .completed ∧ ∀ a ∈ log, OnTime a.pod a.clock := by
  induction h with
  | stop hstep =>
    obtain ⟨hend, -, hlog⟩ := hstep.uncontended hs hj hmodest hu
    exact ⟨hend _ rfl, hlog⟩
  | next hstep _ ih =>
    obtain ⟨-, hu', hlog⟩ := hstep.uncontended hs hj hmodest hu
    obtain ⟨hend, hrest⟩ := ih (hstep.sound hs)
      (fun pod hpod => hmodest pod (hstep.pending_sublist.subset hpod)) hu'
    exact ⟨hend, List.forall_mem_append.2 ⟨hlog, hrest⟩⟩

/-- What a simulation without contention comes to: all pods run, and each starts at most one tick after its
submission. -/
structure Prompt (nodes : List Ledger) (pods : List Pod) (outcome : Outcome)
    (booked : List (Booking nodes.length)) : Prop where
  /-- The simulation is completed. -/
  completed : outcome.status = .completed
  /-- The records are those of the bookings. -/
  records : outcome.schedule.records = booked.map (Booking.record (positions nodes))
  /-- Each pod is booked once. -/
  all : (booked.map Booking.pod).Perm pods
  /-- A pod starts between its submission and one tick later, or at its submission if that is at zero. -/
  start : ∀ r ∈ outcome.schedule.records, r.submit ≤ r.start ∧ r.start ≤ r.submit + clockTick ∧
    (r.submit.equals 0 = true → r.start.equals r.submit = true)

/-- At the start pods are uncontended on an idle node that has room for all of them. -/
theorem uncontended_initial {nodes : Nodes n} {pods : List Pod} (hidle : nodes[j].IsIdle)
    (hcapacity : nodes[j].capacity.WholeCores) (hmodest : ∀ pod ∈ pods, Modest pod)
    (hsums : Resources.SumsUncut (pods.map Pod.requests))
    (hfits : (Resources.sum (pods.map Pod.requests)).fitsWithin nodes[j].capacity = true) :
    Uncontended j (initial policy nodes pods) where
  room := by
    refine (Ledger.roomy_of_isIdle hidle hcapacity ?_ hsums hfits).of_subperm
      ((arrange_perm policy.jobOrder pods).map Pod.requests).subperm
    exact List.forall_mem_map.2 fun pod hpod => (hmodest pod hpod).2
  onTime := by
    intro pod hpod _
    have hsubmit := (hmodest pod ((arrange_perm policy.jobOrder pods).subset hpod)).1
    exact ⟨Binary64.le_trans hsubmit (Binary64.le_add_right hsubmit clockTick_isFinite.2), fun _ => rfl⟩

/-- If an idle active node has room for all pods together, a policy that does not anticipate starts each pod
within one tick of its submission. -/
theorem runPolicy_prompt (policy : Policy) (hnow : policy.anticipates = false) (nodes : List Ledger)
    (pods : List Pod) {l : Ledger} (hl : l ∈ nodes) (hidle : l.IsIdle) (hactive : l.isActive = true)
    (hcapacity : l.capacity.WholeCores) (hids : (pods.map Pod.id).Nodup)
    (hmodest : ∀ pod ∈ pods, 0 ≤ pod.submit ∧ pod.requests.WholeCores)
    (hsums : Resources.SumsUncut (pods.map Pod.requests))
    (hfits : (Resources.sum (pods.map Pod.requests)).fitsWithin l.capacity = true) :
    ∃ outcome booked, runPolicy policy nodes pods = .ok outcome ∧ Prompt nodes pods outcome booked := by
  obtain ⟨i, hi, rfl⟩ := List.mem_iff_getElem.1 hl
  obtain ⟨s, status, hends, hruns⟩ := ends_spec policy nodes pods
  have hsound := sound_initial policy (positions nodes) pods
  have harranged := arrange_perm policy.jobOrder pods
  have hj : (⟨i, hi⟩ : Fin nodes.length) ∈ activeNodes (positions nodes) := mem_activeNodes.2 hactive
  obtain ⟨hcompleted, hlog⟩ := hruns.uncontended hsound hj
    (fun pod hpod => hmodest pod (harranged.subset hpod))
    (uncontended_initial (j := ⟨i, hi⟩) hidle hcapacity hmodest hsums hfits)
  refine ⟨_, bookings (history policy nodes pods), hends.runPolicy_eq, ?_⟩
  exact {
    completed := hcompleted
    records := hruns.records_eq
    all := by
      have hperm := hruns.pods_perm hids
      rwa [(hruns.status_eq_completed hsound).1 hcompleted, List.append_nil] at hperm
    start := by
      intro r hr
      rw [hruns.records_eq] at hr
      obtain ⟨b, hb, rfl⟩ := List.mem_map.1 hr
      obtain ⟨a, ha, hplaced, hpod⟩ := mem_bookings.1 hb
      have hstart : b.start = a.clock := (hruns.sound a ha).1.start_eq_clock hnow hplaced
      obtain ⟨-, -, hsubmitted, hnonneg, -⟩ := hruns.of_mem_bookings hb
      obtain ⟨htick, hzero⟩ := hlog a ha
      rw [hpod, ← hstart] at htick hzero
      refine ⟨hsubmitted, htick, fun hequal => Binary64.equals_iff.2 ⟨?_, hsubmitted⟩⟩
      obtain ⟨hle, hge⟩ := Binary64.equals_iff.1 hequal
      rwa [show (b.record (positions nodes)).start = 0 from hzero hle] }

/-- Two nodes, the second one with room for all of the pods below. -/
def roomyNodes : List Ledger := [.idle "a" (.ofCpu (.ofNat 2)), .idle "b" (.ofCpu (.ofNat 6))]

/-- Three pods, the second one submitted half a tick after the first one. -/
def closePods : List Pod := [.ofCores 1 0 10 2, .ofCores 2 0.005 10 3, .ofCores 3 10 5 1]

/-- The three pods start on time on the two nodes. -/
theorem runPolicy_prompt_closePods : ∃ outcome booked,
    runPolicy Heuristic.firstFit.policy roomyNodes closePods = .ok outcome ∧
      Prompt roomyNodes closePods outcome booked := by
  have hsubmit : ∀ pod ∈ closePods, 0 ≤ pod.submit := by decide +kernel
  have hwhole : ∀ pod ∈ closePods, pod.requests.WholeCores := by
    simp [closePods, Pod.ofCores, Resources.wholeCores_ofCpu]
  have hl : .idle "b" (.ofCpu (.ofNat 6)) ∈ roomyNodes := List.mem_cons_of_mem _ List.mem_cons_self
  exact runPolicy_prompt _ rfl roomyNodes closePods hl (Ledger.isIdle_idle _ _) (by decide +kernel)
    (Resources.wholeCores_ofCpu (by decide)) (by decide)
    (fun pod hpod => ⟨hsubmit pod hpod, hwhole pod hpod⟩) ⟨by decide +kernel, by decide +kernel⟩
    (by decide +kernel)

-- The second pod is submitted within the first tick, and waits for the tick.
example : (history Heuristic.firstFit.policy roomyNodes closePods).map (fun a => (a.pod.id, a.clock)) =
    [(1, 0), (2, 0.01), (3, 10)] := by decide +kernel

end Simulation

end PodPlacement
