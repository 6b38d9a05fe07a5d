import PodPlacement.Proofs.Number.Monotone
import PodPlacement.Proofs.Simulation.Abort
import PodPlacement.Proofs.Simulation.Events

/-! # Leaving an instant

If pods start at the clock or not at all, a simulation stays at an instant as long as it can place a pod
there. It leaves the instant after a pass in which every pod that was submitted by then was declined by
every active node, and since nothing is placed in that pass, a node that declined would decline again. The
clock then moves to the next event, or by a tick if the event is nearer. So nothing that is ahead is passed
by more than a tick.

* `Visits` — the states a simulation comes to; `Ends.exists_visits` — it comes to its end.
* `Visits.clock_eq_or_lt`, `Visits.mem_pods` — between two of them the clock moves forward, and no pod leaves
  a ledger before it finishes.
* `Departure`, `Transition.departure` — what holds when an instant is left.
* `runPolicy_departs` — it holds whenever a simulation leaves an instant. -/

namespace PodPlacement

/-- A pod that finishes later stays when another one is hosted. -/
theorem Ledger.mem_pods_host_of_lt {l : Ledger} {pod : Pod} {t : Seconds} {p : RunningPod}
    (hp : p ∈ l.pods) (h : t < p.finish) : p ∈ (l.host pod t).pods :=
  mem_pods_start.2 (.inr (mem_pods_advance_of_lt hp h))

namespace Simulation

variable {n : Nat} {policy : Policy} {active : List (Fin n)}

/-! ### Pods that keep running -/

section Running

variable {j : Fin n} {q : RunningPod}

/-- A try at the clock takes no pod away that finishes later. -/
theorem Attempt.Sound.mem_pods {a : Attempt n} (h : a.Sound policy active)
    (hnow : policy.anticipates = false) (hq : q ∈ a.before.nodes[j].pods) (hahead : a.clock < q.finish) :
    q ∈ a.after.nodes[j].pods := by
  rcases h.trial.ledger j with ⟨-, hj | hj⟩ | ⟨p, -, -, -, -, hj⟩
  · rwa [hj]
  · rw [hj, h.offer_eq_clock hnow]
    exact Ledger.mem_pods_advance_of_lt hq hahead
  · rw [hj, h.offer_eq_clock hnow]
    exact Ledger.mem_pods_host_of_lt hq hahead

/-- A step takes no pod away that finishes after its clock. -/
theorem Transition.mem_pods {t u : State n} {log : List (Attempt n)} {status? : Option Status}
    (h : Transition policy active t log u status?) (hnow : policy.anticipates = false)
    (hq : q ∈ t.cluster.nodes[j].pods) (hahead : t.clock < q.finish) : q ∈ u.cluster.nodes[j].pods := by
  refine h.chain.invariant (P := fun _ c => q ∈ c.nodes[j].pods) ?_ [] hq
  intro done a ha hbefore
  obtain ⟨hsound, hclock⟩ := h.chain.sound a ha
  exact hsound.mem_pods hnow hbefore (by rwa [hclock])

end Running

/-! ### Leaving -/

/-- What holds when a simulation that has come through state `r` leaves the clock of state `t` for the
one of state `u`. -/
structure Departure (active : List (Fin n)) (r t u : State n) : Prop where
  /-- A pod that is pending and was submitted by the clock that is left is declined by every active
  node. -/
  declined : ∀ pod ∈ u.pending, pod.submit ≤ t.clock →
    ∀ j ∈ active, u.cluster.nodes[j].canAdmit pod.requests t.clock = false
  /-- No submission that is ahead is passed by more than a tick. -/
  submit : ∀ pod ∈ u.pending, t.clock < pod.submit →
    u.clock ≤ pod.submit.maxNum (t.clock + clockTick)
  /-- Neither is the completion of a pod that ran on an active node. -/
  finish : ∀ j ∈ active, ∀ q ∈ r.cluster.nodes[j].pods, t.clock < q.finish →
    u.clock ≤ q.finish.maxNum (t.clock + clockTick)

/-- Moving to the next event, or by a tick, passes no event by more than a tick. -/
theorem IsEvent.clock_le {pending : List Pod} {nodes : Nodes n} {clock event t : Seconds}
    (ht : IsEvent pending nodes active clock t) (hclock : 0 ≤ clock)
    (h : nextEvent? pending nodes active clock = some event) :
    event.maxNum (clock + clockTick) ≤ t.maxNum (clock + clockTick) := by
  have hnum : t.isNaN = false := (Binary64.lt_iff.1 ht.ahead).2.1
  have htick : 0 ≤ clock + clockTick := Binary64.add_nonneg hclock (by decide +kernel)
  have hevent : event ≤ t.maxNum (clock + clockTick) :=
    Binary64.le_of_rank_le (rank_le_of_nextEvent? h ht) (Binary64.le_maxNum_left hnum _)
  exact Binary64.maxNum_le hevent (Binary64.le_maxNum_right t (Binary64.isNaN_of_le_right htick))

/-- In a pass that places nothing, every active node declines every pod submitted by the clock, and it
would decline the pod again. -/
theorem Tried.canAdmit_eq_false {s : State n} {log : List (Attempt n)} {cluster : Cluster n}
    (h : Tried policy active s log cluster) (hnow : policy.anticipates = false)
    (hplaced : bookings log = []) {pod : Pod} (hpod : pod ∈ s.pending) (hsubmit : pod.submit ≤ s.clock)
    {j : Fin n} (hj : j ∈ active) : cluster.nodes[j].canAdmit pod.requests s.clock = false := by
  obtain ⟨a, ha, rfl⟩ := h.exists_try hpod hsubmit
  obtain ⟨hsound, hclock⟩ := h.chain.sound a ha
  have hdeclined := (hsound.trial.declined (bookings_eq_nil.1 hplaced a ha) j hj).1
  rw [hsound.offer_eq_clock hnow, hclock] at hdeclined
  rw [h.eq_advance hplaced hnow a ha j hj, Ledger.canAdmit_advance_self, hdeclined]

/-- A step that moves the clock or aborts the simulation leaves an instant. -/
theorem Transition.departure {r t u : State n} {log : List (Attempt n)} {status? : Option Status}
    (h : Transition policy active t log u status?) (hnow : policy.anticipates = false)
    (ht : t.Sound policy active)
    (hleft : u.clock ≠ t.clock ∨ ∃ cause, status? = some (.aborted cause))
    (hran : ∀ j ∈ active, ∀ q ∈ r.cluster.nodes[j].pods, t.clock < q.finish →
      q ∈ t.cluster.nodes[j].pods) : Departure active r t u := by
  -- Where the clock stays, it passes nothing that is ahead.
  have hstay {x : Seconds} (hx : t.clock < x) : t.clock ≤ x.maxNum (t.clock + clockTick) :=
    Binary64.le_trans (Binary64.le_of_lt hx) (Binary64.le_maxNum_left (Binary64.lt_iff.1 hx).2.1 _)
  cases h with
  | completed hpending => simp at hleft
  | placed => simp at hleft
  | noActiveNodes hpending hactive =>
    subst hactive
    exact ⟨fun _ _ _ _ hj => absurd hj List.not_mem_nil, fun _ _ hahead => hstay hahead,
      fun _ hj => absurd hj List.not_mem_nil⟩
  | stuck htried hplaced hevent =>
    exact ⟨fun pod hpod hsubmit j hj => htried.canAdmit_eq_false hnow hplaced hpod hsubmit hj,
      fun _ _ hahead => hstay hahead, fun _ _ _ _ hahead => hstay hahead⟩
  | waited htried hplaced hevent =>
    refine ⟨fun pod hpod hsubmit j hj => htried.canAdmit_eq_false hnow hplaced hpod hsubmit hj, ?_, ?_⟩
    · intro pod hpod hahead
      exact IsEvent.clock_le ⟨hahead, .inl ⟨pod, hpod, rfl⟩⟩ ht.nonneg hevent
    · intro j hj q hq hahead
      -- The pod still runs after the pass, so its completion is one of the events.
      have hq' := (Transition.waited htried hplaced hevent).mem_pods hnow (hran j hj q hq hahead) hahead
      exact IsEvent.clock_le ⟨hahead, .inr ⟨j, hj, q, hq', rfl⟩⟩ ht.nonneg hevent

/-! ### The states of a simulation -/

/-- From a state, a simulation comes to another one. -/
inductive Visits (policy : Policy) (active : List (Fin n)) (s : State n) : State n → Prop where
  /-- It begins in the state itself. -/
  | here : Visits policy active s s
  /-- It comes from one state to the next by a step. -/
  | next {t u : State n} (h : Visits policy active s t) (hstep : step policy active t = .ok (u, none)) :
    Visits policy active s u

/-- What a step does is one of the transitions. -/
theorem transition_of_step (hactive : active.Nodup) {t u : State n} {status? : Option Status}
    (ht : t.Sound policy active) (hstep : step policy active t = .ok (u, status?)) :
    Transition policy active t (t.attempts policy active) u status? := by
  obtain ⟨u', status?', heq, htransition⟩ := step_spec hactive ht
  rw [hstep] at heq
  cases heq
  exact htransition

namespace Visits

variable {r s t : State n}

/-- A simulation that begins in a sound state comes to sound states. -/
theorem sound (h : Visits policy active s t) (hactive : active.Nodup) (hs : s.Sound policy active) :
    t.Sound policy active := by
  induction h with
  | here => exact hs
  | next _ hstep ih => exact (transition_of_step hactive ih hstep).sound ih

/-- Between two states the clock stays or moves forward. -/
theorem clock_eq_or_lt (h : Visits policy active s t) (hactive : active.Nodup)
    (hs : s.Sound policy active) : t.clock = s.clock ∨ s.clock < t.clock := by
  induction h with
  | here => exact .inl rfl
  | next h hstep ih =>
    have hnext := (transition_of_step hactive (h.sound hactive hs) hstep).clock_eq_or_lt
    rcases hnext with heq | hlt
    · rwa [heq]
    · right
      rcases ih with heq | hlt'
      · rwa [← heq]
      · exact Binary64.lt_of_lt_of_le hlt' (Binary64.le_of_lt hlt)

/-- Pods that start at the clock keep running until they finish. -/
theorem mem_pods (h : Visits policy active s t) (hactive : active.Nodup) (hs : s.Sound policy active)
    (hnow : policy.anticipates = false) {j : Fin n} {q : RunningPod} (hq : q ∈ s.cluster.nodes[j].pods)
    (hahead : t.clock < q.finish) : q ∈ t.cluster.nodes[j].pods := by
  induction h with
  | here => exact hq
  | @next t u h hstep ih =>
    have ht := h.sound hactive hs
    have htransition := transition_of_step hactive ht hstep
    have hbefore : t.clock < q.finish := Binary64.lt_of_le_of_lt (htransition.clock_le ht) hahead
    exact htransition.mem_pods hnow (ih hbefore) hbefore

/-- What is visited later is visited from the beginning. -/
theorem trans (h : Visits policy active r s) (h' : Visits policy active s t) : Visits policy active r t := by
  induction h' with
  | here => exact h
  | next _ hstep ih => exact .next ih hstep

end Visits

/-- Steps that come to an end visit a state in which the last step is made. -/
theorem exists_visits_of_steps {limit : Nat} {s t : State n} {status : Status}
    (h : steps policy active limit s = .ok (t, some status)) :
    ∃ last, Visits policy active s last ∧ step policy active last = .ok (t, some status) := by
  induction limit generalizing s with
  | zero => cases h
  | succ limit ih =>
    rcases steps_succ_eq_ok.1 h with ⟨status', hstep, hstatus⟩ | ⟨u, hstep, hrest⟩
    · cases hstatus
      exact ⟨s, .here, hstep⟩
    · obtain ⟨last, hvisits, hlast⟩ := ih hrest
      exact ⟨last, .trans (.next .here hstep) hvisits, hlast⟩

/-- If pods start at the clock, then in every simulation the clock moves forward only, and whenever an
instant is left, every pod that is pending and was submitted by then is declined by every active node, and
nothing that is ahead is passed by more than a tick. -/
theorem runPolicy_departs (hnow : policy.anticipates = false) (nodes : List Ledger) (pods : List Pod) :
    (∃ s status last, Ends policy nodes pods s status ∧
      Visits policy (activeNodes (positions nodes)) (initial policy (positions nodes) pods) last ∧
      step policy (activeNodes (positions nodes)) last = .ok (s, some status)) ∧
    ∀ r t, Visits policy (activeNodes (positions nodes)) (initial policy (positions nodes) pods) r →
      Visits policy (activeNodes (positions nodes)) r t → (t.clock = r.clock ∨ r.clock < t.clock) ∧
        ∃ u status?, step policy (activeNodes (positions nodes)) t = .ok (u, status?) ∧
          (u.clock ≠ t.clock ∨ (∃ cause, status? = some (.aborted cause)) →
            Departure (activeNodes (positions nodes)) r t u) := by
  have hactive := nodup_activeNodes (positions nodes)
  constructor
  · obtain ⟨s, status, hends, -⟩ := ends_spec policy nodes pods
    obtain ⟨last, hvisits, hlast⟩ := exists_visits_of_steps hends
    exact ⟨s, status, last, hends, hvisits, hlast⟩
  · intro r t hr ht
    have hrsound := hr.sound hactive (sound_initial policy (positions nodes) pods)
    have htsound := ht.sound hactive hrsound
    refine ⟨ht.clock_eq_or_lt hactive hrsound, ?_⟩
    obtain ⟨u, status?, hstep, htransition⟩ := step_spec hactive htsound
    refine ⟨u, status?, hstep, fun hleft => htransition.departure hnow htsound hleft ?_⟩
    intro j _ q hq hahead
    exact ht.mem_pods hactive hrsound hnow hq hahead

/-- A node whose only core is in use until 5. -/
def fullNode : Ledger := (Ledger.idle "a" (.ofCpu 1)).host (.ofCores 7 0 5 1) 0

/-- The first pod waits for the core, and the second one is submitted after half a tick: the first instant
is left for the one a tick later. -/
theorem runPolicy_departs_fullNode : Heuristic.firstFit.policy.anticipates = false ∧ ∃ u status?,
    step Heuristic.firstFit.policy (activeNodes (positions [fullNode]))
        (initial Heuristic.firstFit.policy (positions [fullNode])
          [.ofCores 1 0 10 1, .ofCores 2 0.005 10 1]) = .ok (u, status?) ∧
      u.clock = clockTick ∧
      Departure (activeNodes (positions [fullNode]))
        (initial Heuristic.firstFit.policy (positions [fullNode]) [.ofCores 1 0 10 1, .ofCores 2 0.005 10 1])
        (initial Heuristic.firstFit.policy (positions [fullNode]) [.ofCores 1 0 10 1, .ofCores 2 0.005 10 1])
        u := by
  have hnow : Heuristic.firstFit.policy.anticipates = false := rfl
  obtain ⟨-, hall⟩ := runPolicy_departs hnow [fullNode] [.ofCores 1 0 10 1, .ofCores 2 0.005 10 1]
  obtain ⟨-, u, status?, hstep, hdeparture⟩ := hall _ _ .here .here
  have hclock : (step Heuristic.firstFit.policy (activeNodes (positions [fullNode]))
      (initial Heuristic.firstFit.policy (positions [fullNode])
        [.ofCores 1 0 10 1, .ofCores 2 0.005 10 1])).toOption.any
      (fun x => decide (x.1.clock = clockTick)) = true := by decide +kernel
  rw [hstep] at hclock
  have hclock : u.clock = clockTick := of_decide_eq_true hclock
  refine ⟨hnow, u, status?, hstep, hclock, hdeparture (.inl ?_)⟩
  rw [hclock]
  decide +kernel

end Simulation

end PodPlacement
