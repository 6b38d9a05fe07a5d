import PodPlacement.Proofs.Policy
import PodPlacement.Proofs.Simulation.Accounting
import PodPlacement.Proofs.Simulation.Events

/-! # No knowledge of the future

What a simulation does before an instant does not depend on the pods submitted at that instant or later.
Two simulations that differ in such pods only are in step up to the instant: they try the same pods on
the same nodes, and the clock moves to the same events. From then on they may do as they please, since
nothing starts before the clock.

* `Runs.before_eq` — a run books nothing before an instant that the clock has reached, or before which no
  pending pod was submitted.
* `Alike`, `Alike.step` — two states that are in step before an instant, and how a step leaves them.
* `runPolicy_before` — the records that start before an instant are the same. -/

namespace PodPlacement

/-- The records that start before an instant. -/
def Schedule.before (s : Schedule) (t : Seconds) : List Record :=
  s.records.filter fun r => decide (r.start < t)

namespace Simulation

variable {n : Nat} {policy : Policy} {active : List (Fin n)} {t : Seconds}

/-! ### Instants that are behind -/

/-- A run books nothing before an instant that the clock has reached, or before which no pending pod was
submitted. -/
theorem Runs.before_eq {s s' : State n} {log : List (Attempt n)} {status : Status}
    (h : Runs policy active s log s' status) (hs : s.Sound policy active)
    (hlate : s.clock < t → ∀ pod ∈ s.pending, ¬ pod.submit < t) :
    s'.schedule.before t = s.schedule.before t := by
  have hnone : ((bookings log).map (Booking.record s.cluster.nodes)).filter
      (fun r => decide (r.start < t)) = [] := by
    rw [List.filter_eq_nil_iff]
    intro r hr
    obtain ⟨b, hb, rfl⟩ := List.mem_map.1 hr
    rw [decide_eq_true_eq]
    intro hearly
    -- A booking before `t` would be made at a clock before `t`, for a pod submitted before `t`.
    have hstart : b.start < t := hearly
    obtain ⟨a, ha, hplaced, -⟩ := mem_bookings.1 hb
    have hclock := Binary64.le_trans (h.clock_le hs a ha) ((h.sound a ha).1.clock_le_start hplaced)
    obtain ⟨hpending, -, hsubmit, -⟩ := h.of_mem_bookings hb
    exact hlate (Binary64.lt_of_le_of_lt hclock hstart) b.pod hpending
      (Binary64.lt_of_le_of_lt hsubmit hstart)
  rw [h.schedule_eq, Schedule.before, Schedule.records_book, List.filter_append, hnone,
    List.append_nil]
  rfl

/-! ### Simulations in step -/

/-- The pods submitted before `t`. -/
def early (t : Seconds) (pods : List Pod) : List Pod := pods.filter fun p => decide (p.submit < t)

/-- Two states are the same but for pending pods that are submitted at `t` or later. -/
structure Alike (t : Seconds) (s r : State n) : Prop where
  /-- They have reached the same instant. -/
  clock : s.clock = r.clock
  /-- The nodes are the same. -/
  cluster : s.cluster = r.cluster
  /-- The records are the same. -/
  schedule : s.schedule = r.schedule
  /-- The pods submitted before `t` are the same, in the same order. -/
  pending : early t s.pending = early t r.pending

section Early

variable {pending pending' : List Pod} {nodes : Nodes n} {clock event : Seconds}

/-- Early pods may be looked for before or after others leave. -/
theorem early_filter (p : Pod → Bool) (pods : List Pod) :
    early t (pods.filter p) = (early t pods).filter p := by
  simp only [early, List.filter_filter, Bool.and_comm]

/-- Before `t`, the ready pods are early ones. -/
theorem readyPods_eq_of_early (order : PodOrder) (hearly : early t pending = early t pending')
    (hclock : clock < t) : order.readyPods pending clock = order.readyPods pending' clock := by
  have hready (pods : List Pod) : order.readyPods (early t pods) clock = order.readyPods pods clock := by
    apply order.readyPods_filter
    intro pod hpod
    exact decide_eq_true (Binary64.lt_of_le_of_lt hpod hclock)
  rw [← hready, hearly, hready]

/-- An event before `t` is one for the same early pods as well. -/
theorem IsEvent.of_early (hearly : early t pending = early t pending') {u : Seconds} (hu : u < t)
    (h : IsEvent pending nodes active clock u) : IsEvent pending' nodes active clock u := by
  refine ⟨h.ahead, ?_⟩
  rcases h.occurs with ⟨pod, hpod, rfl⟩ | hcompletion
  · have hmem : pod ∈ early t pending := List.mem_filter.2 ⟨hpod, decide_eq_true hu⟩
    rw [hearly] at hmem
    exact .inl ⟨pod, (List.mem_filter.1 hmem).1, rfl⟩
  · exact .inr hcompletion

/-- A next event before `t` is the next one for the same early pods as well. -/
theorem nextEvent?_of_early (hearly : early t pending = early t pending')
    (h : nextEvent? pending nodes active clock = some event) (hlt : event < t) :
    nextEvent? pending' nodes active clock = some event :=
  nextEvent?_eq_of_lt (fun _ hu => ⟨.of_early hearly hu, .of_early hearly.symm hu⟩) h hlt

/-- The clock passes an instant that the next event is not before. -/
theorem not_lt_of_nextEvent? (h : nextEvent? pending nodes active clock = some event)
    (hevent : ¬ event < t) (tick : Seconds) : ¬ event.maxNum tick < t := by
  have hnum := (Binary64.lt_iff.1 (of_nextEvent? h).1).2.1
  intro hlt
  exact hevent (Binary64.lt_of_le_of_lt (Binary64.le_maxNum_left hnum tick) hlt)

end Early

/-- A step leaves two states that are alike before `t` alike, or there is nothing more to come before
`t`. -/
theorem Alike.step {s s' r r' : State n} {log log' : List (Attempt n)} {ended? ended?' : Option Status}
    (h : Alike t s r) (hclock : s.clock < t) (hearly : early t s.pending ≠ [])
    (hs : Transition policy active s log s' ended?) (hr : Transition policy active r log' r' ended?') :
    (Alike t s' r' ∧ ended? = ended?') ∨
      (s'.schedule = r'.schedule ∧ (ended? = none → ¬ s'.clock < t) ∧
        (ended?' = none → ¬ r'.clock < t)) := by
  -- Early pods are pending in both states, so neither simulation is completed.
  have hpending : s.pending ≠ [] := by
    intro hnil
    rw [hnil] at hearly
    exact hearly rfl
  have hpending' : r.pending ≠ [] := by
    intro hnil
    rw [h.pending, hnil] at hearly
    exact hearly rfl
  obtain ⟨clock, pending, cluster, schedule⟩ := s
  obtain ⟨clock', pending', cluster', schedule'⟩ := r
  obtain ⟨rfl, rfl, rfl, hsame⟩ := h
  -- The same pods are ready, so the tries and the clusters they lead to are the same.
  have hpods : log.map Attempt.pod = log'.map Attempt.pod := by
    rw [hs.map_pod, hr.map_pod, readyPods_eq_of_early policy.podOrder hsame hclock]
  obtain ⟨rfl, hcluster⟩ := hs.chain.unique hr.chain hpods
  cases hs with
  | completed hnil => exact absurd hnil hpending
  | noActiveNodes _ hactive =>
    cases hr with
    | completed hnil => exact absurd hnil hpending'
    | noActiveNodes => exact .inl ⟨⟨rfl, rfl, rfl, hsame⟩, rfl⟩
    | placed htried | waited htried | stuck htried => exact absurd hactive htried.hasActive
  | placed htried hplaced =>
    cases hr with
    | completed hnil => exact absurd hnil hpending'
    | noActiveNodes _ hactive => exact absurd hactive htried.hasActive
    | waited _ hnone | stuck _ hnone => exact absurd hnone hplaced
    | placed =>
      refine .inl ⟨⟨rfl, hcluster, rfl, ?_⟩, rfl⟩
      simp only [early_filter, hsame]
  | @waited _ _ event htried hplaced hevent =>
    cases hr with
    | completed hnil => exact absurd hnil hpending'
    | noActiveNodes _ hactive => exact absurd hactive htried.hasActive
    | placed _ hsome => exact absurd hplaced hsome
    | @waited _ _ event' _ _ hevent' =>
      cases hcluster
      -- If either event is before `t`, it is the next one in both states.
      by_cases hlt : event < t
      · rw [nextEvent?_of_early hsame hevent hlt] at hevent'
        cases hevent'
        exact .inl ⟨⟨rfl, rfl, rfl, hsame⟩, rfl⟩
      by_cases hlt' : event' < t
      · rw [nextEvent?_of_early hsame.symm hevent' hlt'] at hevent
        cases hevent
        exact .inl ⟨⟨rfl, rfl, rfl, hsame⟩, rfl⟩
      exact .inr ⟨rfl, fun _ => not_lt_of_nextEvent? hevent hlt _,
        fun _ => not_lt_of_nextEvent? hevent' hlt' _⟩
    | stuck _ _ hevent' =>
      cases hcluster
      by_cases hlt : event < t
      · rw [nextEvent?_of_early hsame hevent hlt] at hevent'
        cases hevent'
      · exact .inr ⟨rfl, fun _ => not_lt_of_nextEvent? hevent hlt _, fun hnone => by cases hnone⟩
  | stuck htried hplaced hevent =>
    cases hr with
    | completed hnil => exact absurd hnil hpending'
    | noActiveNodes _ hactive => exact absurd hactive htried.hasActive
    | placed _ hsome => exact absurd hplaced hsome
    | @waited _ _ event' _ _ hevent' =>
      cases hcluster
      by_cases hlt' : event' < t
      · rw [nextEvent?_of_early hsame.symm hevent' hlt'] at hevent
        cases hevent
      · exact .inr ⟨rfl, (fun hnone => by cases hnone), fun _ => not_lt_of_nextEvent? hevent' hlt' _⟩
    | stuck => exact .inr ⟨rfl, (fun hnone => by cases hnone), fun hnone => by cases hnone⟩

section Runs

variable {s s' r r' : State n} {log log' : List (Attempt n)} {status status' : Status}

/-- Runs from states that are alike book nothing before `t` if the clock has reached it or no early pod
is pending. -/
theorem Alike.before_eq_of_late (h : Alike t s r) (hs : s.Sound policy active)
    (hr : r.Sound policy active) (hruns : Runs policy active s log s' status)
    (hruns' : Runs policy active r log' r' status') (hlate : s.clock < t → early t s.pending = []) :
    s'.schedule.before t = r'.schedule.before t := by
  have hnone {pods : List Pod} (hpods : early t pods = []) : ∀ pod ∈ pods, ¬ pod.submit < t := by
    rw [early, List.filter_eq_nil_iff] at hpods
    simpa using hpods
  have hlate' (hlt : r.clock < t) : early t r.pending = [] := by
    rw [← h.clock] at hlt
    rw [← h.pending, hlate hlt]
  rw [hruns.before_eq hs fun hlt => hnone (hlate hlt),
    hruns'.before_eq hr fun hlt => hnone (hlate' hlt), h.schedule]

/-- Runs from states that are alike before `t` book the same before `t`. -/
theorem Alike.before_eq (h : Alike t s r) (hs : s.Sound policy active) (hr : r.Sound policy active)
    (hruns : Runs policy active s log s' status) (hruns' : Runs policy active r log' r' status') :
    s'.schedule.before t = r'.schedule.before t := by
  -- The steps of both runs are followed together for as long as they have to agree.
  induction hruns generalizing r log' with
  | @stop s s' log status hstep =>
    by_cases hbusy : s.clock < t ∧ early t s.pending ≠ []
    · cases hruns' with
      | stop hstep' =>
        rcases h.step hbusy.1 hbusy.2 hstep hstep' with ⟨halike, -⟩ | ⟨hschedule, -⟩
        · rw [halike.schedule]
        · rw [hschedule]
      | next hstep' hrest' =>
        rcases h.step hbusy.1 hbusy.2 hstep hstep' with ⟨-, hended⟩ | ⟨hschedule, -, hpassed⟩
        · cases hended
        · rw [hschedule, hrest'.before_eq (hstep'.sound hr) fun hlt => absurd hlt (hpassed rfl)]
    · exact h.before_eq_of_late hs hr (.stop hstep) hruns' (by simpa using hbusy)
  | @next s t' s' log rest status hstep hrest ih =>
    by_cases hbusy : s.clock < t ∧ early t s.pending ≠ []
    · cases hruns' with
      | stop hstep' =>
        rcases h.step hbusy.1 hbusy.2 hstep hstep' with ⟨-, hended⟩ | ⟨hschedule, hpassed, -⟩
        · cases hended
        · rw [← hschedule, hrest.before_eq (hstep.sound hs) fun hlt => absurd hlt (hpassed rfl)]
      | next hstep' hrest' =>
        rcases h.step hbusy.1 hbusy.2 hstep hstep' with ⟨halike, -⟩ | ⟨hschedule, hpassed, hpassed'⟩
        · exact ih halike (hstep.sound hs) (hstep'.sound hr) hrest'
        · rw [hrest.before_eq (hstep.sound hs) fun hlt => absurd hlt (hpassed rfl),
            hrest'.before_eq (hstep'.sound hr) fun hlt => absurd hlt (hpassed' rfl), hschedule]
    · exact h.before_eq_of_late hs hr (.next hstep hrest) hruns' (by simpa using hbusy)

end Runs

/-! ### Simulations with more pods -/

/-- Pods that are submitted at `t` or later leave the beginning of a simulation as it is before `t`, if
jobs are taken as they are given. -/
theorem alike_initial (hinput : policy.jobOrder = .input) (nodes : Nodes n) (pods : List Pod)
    {later : List Pod} (hlater : ∀ pod ∈ later, t ≤ pod.submit) :
    Alike t (initial policy nodes pods) (initial policy nodes (pods ++ later)) := by
  refine ⟨rfl, rfl, rfl, ?_⟩
  have hnone : early t later = [] := by
    rw [early, List.filter_eq_nil_iff]
    intro pod hpod
    simpa using Binary64.not_lt_of_le (hlater pod hpod)
  show early t (policy.jobOrder.arrange pods) = early t (policy.jobOrder.arrange (pods ++ later))
  rw [hinput, early, early, JobOrder.filter_arrange_input, JobOrder.filter_arrange_input,
    List.filter_append]
  show _ = JobOrder.input.arrange (_ ++ early t later)
  rw [hnone, List.append_nil]

/-- If jobs are taken as they are given, pods that are submitted at `t` or later change nothing before
`t`: the records that start before `t` are the same, in the same order. This holds for both ways of
placing pods, and for all times and numbers of the pods. -/
theorem runPolicy_before {policy : Policy} (hinput : policy.jobOrder = .input) (nodes : List Ledger)
    (pods : List Pod) {later : List Pod} {t : Seconds} (hlater : ∀ pod ∈ later, t ≤ pod.submit) :
    ∃ outcome outcome', runPolicy policy nodes pods = .ok outcome ∧
      runPolicy policy nodes (pods ++ later) = .ok outcome' ∧
        outcome'.schedule.before t = outcome.schedule.before t := by
  obtain ⟨s, status, hends, hruns⟩ := ends_spec policy nodes pods
  obtain ⟨s', status', hends', hruns'⟩ := ends_spec policy nodes (pods ++ later)
  refine ⟨_, _, hends.runPolicy_eq, hends'.runPolicy_eq, ?_⟩
  exact ((alike_initial hinput (positions nodes) pods hlater).before_eq (sound_initial _ _ _)
    (sound_initial _ _ _) hruns hruns').symm

/-- A pod that is submitted at instant 5 changes nothing before, also if pods are placed ahead. -/
theorem runPolicy_before_five : ∃ outcome outcome',
    runPolicy ⟨.input, .shortestFirst, .earliestFree, true⟩ [.idle "a" (.ofCpu 2)]
        [.ofCores 1 0 10 1] = .ok outcome ∧
      runPolicy ⟨.input, .shortestFirst, .earliestFree, true⟩ [.idle "a" (.ofCpu 2)]
        ([.ofCores 1 0 10 1] ++ [.ofCores 2 5 10 2]) = .ok outcome' ∧
      outcome'.schedule.before 5 = outcome.schedule.before 5 :=
  runPolicy_before rfl _ _ (List.forall_mem_singleton.2 (Binary64.le_refl rfl))

end Simulation

end PodPlacement
