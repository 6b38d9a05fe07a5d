import Mathlib.Data.List.Nodup
import PodPlacement.Proofs.Policy
import PodPlacement.Proofs.Simulation.Log

/-! # Steps and runs

What a step of a simulation can do and under which conditions, and runs as sequences of steps. Nothing
here depends on the ledgers the simulation starts from, or on the numbers of the pods being distinct.

* `Step`, `step_eq_ok` — what a step comes to, in terms of its pass.
* `Transition` — the same in terms of the tries that are made; `step_spec` — a step always does one of the
  five things it can do.
* `Runs` — a run from a state to the one it ends in, with its log.
* `Runs.invariant` — the induction over all tries of a run and all moves of the clock.
* `Runs.pending_perm` — pods with distinct numbers are placed or pending, never both, never lost. -/

namespace PodPlacement

namespace Simulation

variable {n : Nat}

/-! ### Ready pods -/

/-- The ready pods are the ones submitted by the clock, in some order. -/
theorem readyPods_perm (order : PodOrder) (pending : List Pod) (clock : Seconds) :
    (order.readyPods pending clock).Perm (pending.filter fun p => decide (p.submit ≤ clock)) := by
  rw [PodOrder.readyPods_eq_sortBy]
  exact sortBy_perm _ _

/-- A ready pod is pending and was submitted. -/
theorem mem_readyPods {order : PodOrder} {pending : List Pod} {clock : Seconds} {pod : Pod} :
    pod ∈ order.readyPods pending clock ↔ pod ∈ pending ∧ pod.submit ≤ clock := by
  rw [(readyPods_perm order pending clock).mem_iff, List.mem_filter, decide_eq_true_eq]

/-! ### The next event -/

/-- A submission that comes next is that of a pending pod, and it is still ahead. -/
theorem of_nextSubmit? {pending : List Pod} {clock t : Seconds} (h : nextSubmit? pending clock = some t) :
    clock < t ∧ ∃ pod ∈ pending, pod.submit = t := by
  have hmem := Ledger.mem_of_earliest? h
  rw [List.mem_filter, List.mem_map, decide_eq_true_eq] at hmem
  exact ⟨hmem.2, hmem.1⟩

/-- A completion that comes next is that of a running pod, and it is still ahead. -/
theorem of_nextCompletion? {nodes : Nodes n} {active : List (Fin n)} {clock t : Seconds}
    (h : nextCompletion? nodes active clock = some t) :
    clock < t ∧ ∃ i ∈ active, ∃ q ∈ nodes[i].pods, q.finish = t := by
  obtain ⟨i, hi, hnext⟩ := List.mem_filterMap.1 (Ledger.mem_of_earliest? h)
  have hmem := Ledger.mem_of_earliest? hnext
  rw [List.mem_filter, List.mem_map, decide_eq_true_eq] at hmem
  exact ⟨hmem.2, i, hi, hmem.1⟩

/-- An event that comes next is a submission or a completion, and it is still ahead. -/
theorem of_nextEvent? {pending : List Pod} {nodes : Nodes n} {active : List (Fin n)} {clock event : Seconds}
    (h : nextEvent? pending nodes active clock = some event) : clock < event ∧
      ((∃ pod ∈ pending, pod.submit = event) ∨
        ∃ i ∈ active, ∃ q ∈ nodes[i].pods, q.finish = event) := by
  rw [nextEvent?] at h
  cases hs : nextSubmit? pending clock with
  | none =>
    rw [hs] at h
    obtain ⟨hlt, hmem⟩ := of_nextCompletion? h
    exact ⟨hlt, .inr hmem⟩
  | some a =>
    obtain ⟨hlt, hmem⟩ := of_nextSubmit? hs
    cases hc : nextCompletion? nodes active clock with
    | none =>
      rw [hs, hc, Option.some.injEq] at h
      subst h
      exact ⟨hlt, .inl hmem⟩
    | some b =>
      obtain ⟨hlt', hmem'⟩ := of_nextCompletion? hc
      rw [hs, hc, Option.some.injEq] at h
      subst h
      rcases Binary64.minNum_eq_or a b with hmin | hmin <;> rw [hmin]
      · exact ⟨hlt, .inl hmem⟩
      · exact ⟨hlt', .inr hmem'⟩

/-- If no submission comes next, none is ahead. -/
theorem of_nextSubmit?_eq_none {pending : List Pod} {clock : Seconds}
    (h : nextSubmit? pending clock = none) : ∀ pod ∈ pending, ¬ clock < pod.submit := by
  rw [nextSubmit?, Ledger.earliest?_eq_none, List.filter_eq_nil_iff] at h
  intro pod hpod hlt
  exact h pod.submit (List.mem_map_of_mem hpod) (decide_eq_true hlt)

/-- If no completion comes next, none is ahead. -/
theorem of_nextCompletion?_eq_none {nodes : Nodes n} {active : List (Fin n)} {clock : Seconds}
    (h : nextCompletion? nodes active clock = none) :
    ∀ i ∈ active, ∀ q ∈ nodes[i].pods, ¬ clock < q.finish := by
  rw [nextCompletion?, Ledger.earliest?_eq_none, List.filterMap_eq_nil_iff] at h
  intro i hi q hq hlt
  have hnone := h i hi
  rw [Ledger.nextCompletionAfter, Ledger.earliest?_eq_none, List.filter_eq_nil_iff] at hnone
  exact hnone q.finish (List.mem_map_of_mem hq) (decide_eq_true hlt)

/-- If no event comes next, no submission and no completion is ahead. -/
theorem of_nextEvent?_eq_none {pending : List Pod} {nodes : Nodes n} {active : List (Fin n)}
    {clock : Seconds} (h : nextEvent? pending nodes active clock = none) :
    (∀ pod ∈ pending, ¬ clock < pod.submit) ∧ ∀ i ∈ active, ∀ q ∈ nodes[i].pods, ¬ clock < q.finish := by
  rw [nextEvent?] at h
  cases hs : nextSubmit? pending clock with
  | some a => cases hc : nextCompletion? nodes active clock <;> rw [hs, hc] at h <;> cases h
  | none =>
    rw [hs] at h
    exact ⟨of_nextSubmit?_eq_none hs, of_nextCompletion?_eq_none h⟩

/-! ### Steps -/

/-- What a step comes to, in terms of its pass. -/
inductive Step (policy : Policy) (active : List (Fin n)) (s : State n) :
    State n → Option Status → Prop where
  /-- Nothing is pending. -/
  | completed (hpending : s.pending = []) : Step policy active s s (some .completed)
  /-- No node takes part. -/
  | noActiveNodes (hpending : s.pending ≠ []) (hactive : active = []) :
    Step policy active s s (some (.aborted .noActiveNodes))
  /-- The pass places pods, and they leave. -/
  | placed {cluster : Cluster n} {schedule : Schedule} {placed : List Nat} (hpending : s.pending ≠ [])
    (hactive : active ≠ [])
    (hpass : pass policy active s.clock (policy.podOrder.readyPods s.pending s.clock) s.cluster
      s.schedule = .ok (cluster, schedule, placed)) (hplaced : placed ≠ []) :
    Step policy active s
      { s with
        pending := s.pending.filter fun p => !placed.contains p.id
        cluster := cluster
        schedule := schedule } none
  /-- The pass places no pod, and the clock moves on. -/
  | waited {cluster : Cluster n} {schedule : Schedule} {event : Seconds} (hpending : s.pending ≠ [])
    (hactive : active ≠ [])
    (hpass : pass policy active s.clock (policy.podOrder.readyPods s.pending s.clock) s.cluster
      s.schedule = .ok (cluster, schedule, []))
    (hevent : nextEvent? s.pending cluster.nodes active s.clock = some event) :
    Step policy active s
      { s with
        cluster := cluster
        schedule := schedule
        clock := event.maxNum (s.clock + clockTick) } none
  /-- The pass places no pod, and nothing is left to wait for. -/
  | stuck {cluster : Cluster n} {schedule : Schedule} (hpending : s.pending ≠ []) (hactive : active ≠ [])
    (hpass : pass policy active s.clock (policy.podOrder.readyPods s.pending s.clock) s.cluster
      s.schedule = .ok (cluster, schedule, []))
    (hevent : nextEvent? s.pending cluster.nodes active s.clock = none) :
    Step policy active s { s with cluster := cluster, schedule := schedule }
      (some (.aborted (.noNextEvent s.clock s.pending.length)))

/-- A step comes to a result exactly if its pass does. -/
theorem step_eq_ok {policy : Policy} {active : List (Fin n)} {s s' : State n} {status? : Option Status} :
    step policy active s = .ok (s', status?) ↔ Step policy active s s' status? := by
  constructor
  · intro h
    rw [step] at h
    by_cases hpending : s.pending = []
    · rw [if_pos (by simpa using hpending)] at h
      cases h
      exact .completed hpending
    by_cases hactive : active = []
    · rw [if_neg (by simpa using hpending), if_pos (by simpa using hactive)] at h
      cases h
      exact .noActiveNodes hpending hactive
    rw [if_neg (by simpa using hpending), if_neg (by simpa using hactive)] at h
    dsimp only at h
    cases hpass : pass policy active s.clock (policy.podOrder.readyPods s.pending s.clock) s.cluster
        s.schedule with
    | error breach =>
      rw [hpass] at h
      cases h
    | ok result =>
      obtain ⟨cluster, schedule, placed⟩ := result
      rw [hpass] at h
      simp only [bind, Except.bind, pure, Except.pure] at h
      by_cases hplaced : placed = []
      · subst hplaced
        rw [if_pos List.isEmpty_nil] at h
        cases hevent : nextEvent? s.pending cluster.nodes active s.clock with
        | some event =>
          rw [hevent] at h
          cases h
          exact .waited hpending hactive hpass hevent
        | none =>
          rw [hevent] at h
          cases h
          exact .stuck hpending hactive hpass hevent
      · rw [if_neg (by simpa using hplaced)] at h
        cases h
        exact .placed hpending hactive hpass hplaced
  · intro h
    rw [step]
    cases h with
    | completed hpending => rw [if_pos (by simpa using hpending)]
    | noActiveNodes hpending hactive =>
      rw [if_neg (by simpa using hpending), if_pos (by simpa using hactive)]
    | placed hpending hactive hpass hplaced =>
      rw [if_neg (by simpa using hpending), if_neg (by simpa using hactive)]
      dsimp only
      rw [hpass]
      show (if _ then _ else _) = _
      rw [if_neg (by simpa using hplaced)]
      rfl
    | waited hpending hactive hpass hevent | stuck hpending hactive hpass hevent =>
      rw [if_neg (by simpa using hpending), if_neg (by simpa using hactive)]
      dsimp only
      rw [hpass]
      simp only [bind, Except.bind, List.isEmpty_nil, if_true, hevent]
      rfl

/-- What holds of every state of a run: the cluster is in order and the clock is not before zero. -/
structure State.Sound (policy : Policy) (active : List (Fin n)) (s : State n) : Prop where
  /-- The queue is complete and in order. -/
  queues : s.cluster.Queues active
  /-- There is a queue exactly if the policy anticipates. -/
  mode : s.cluster.queue?.isSome = policy.anticipates
  /-- The clock is not before zero. -/
  nonneg : 0 ≤ s.clock

/-- The tries of a step. -/
def State.attempts (policy : Policy) (active : List (Fin n)) (s : State n) : List (Attempt n) :=
  if s.pending.isEmpty || active.isEmpty then []
  else Simulation.attempts policy active s.clock (policy.podOrder.readyPods s.pending s.clock) s.cluster

/-- In a state, some tries were made and led to a cluster. -/
structure Tried (policy : Policy) (active : List (Fin n)) (s : State n) (log : List (Attempt n))
    (cluster : Cluster n) : Prop where
  /-- Pods are pending. -/
  hasPending : s.pending ≠ []
  /-- Nodes take part. -/
  hasActive : active ≠ []
  /-- The tries follow one another. -/
  chain : Chain policy active s.clock s.cluster log cluster
  /-- Each ready pod is tried once. -/
  pods : log.map Attempt.pod = policy.podOrder.readyPods s.pending s.clock
  /-- The queue is complete and in order. -/
  queues : cluster.Queues active
  /-- There is a queue exactly if the policy anticipates. -/
  mode : cluster.queue?.isSome = policy.anticipates

/-- What a step can do: the log of its tries, the state afterwards, and how the run ended if it did. -/
inductive Transition (policy : Policy) (active : List (Fin n)) (s : State n) :
    List (Attempt n) → State n → Option Status → Prop where
  /-- Nothing is pending. -/
  | completed (hpending : s.pending = []) : Transition policy active s [] s (some .completed)
  /-- No node takes part. -/
  | noActiveNodes (hpending : s.pending ≠ []) (hactive : active = []) :
    Transition policy active s [] s (some (.aborted .noActiveNodes))
  /-- Pods were placed; they are pending no more. -/
  | placed {log : List (Attempt n)} {cluster : Cluster n} (htried : Tried policy active s log cluster)
    (hplaced : bookings log ≠ []) :
    Transition policy active s log
      { s with
        pending := s.pending.filter fun p => !((bookings log).map fun b => b.pod.id).contains p.id
        cluster := cluster
        schedule := s.schedule.book s.cluster.nodes (bookings log) } none
  /-- No pod was placed; the clock moves on to the next event, and by a tick at least. -/
  | waited {log : List (Attempt n)} {cluster : Cluster n} {event : Seconds}
    (htried : Tried policy active s log cluster) (hplaced : bookings log = [])
    (hevent : nextEvent? s.pending cluster.nodes active s.clock = some event) :
    Transition policy active s log
      { s with cluster := cluster, clock := event.maxNum (s.clock + clockTick) } none
  /-- No pod was placed and nothing is left to wait for. -/
  | stuck {log : List (Attempt n)} {cluster : Cluster n} (htried : Tried policy active s log cluster)
    (hplaced : bookings log = [])
    (hevent : nextEvent? s.pending cluster.nodes active s.clock = none) :
    Transition policy active s log { s with cluster := cluster }
      (some (.aborted (.noNextEvent s.clock s.pending.length)))

/-- A step always comes to a result, and its log is that of one of the transitions. -/
theorem step_spec {policy : Policy} {active : List (Fin n)} (hactive : active.Nodup) {s : State n}
    (hs : s.Sound policy active) : ∃ s' status?, step policy active s = .ok (s', status?) ∧
      Transition policy active s (s.attempts policy active) s' status? := by
  rw [State.attempts]
  by_cases hpending : s.pending = []
  · rw [if_pos (by simp [hpending])]
    exact ⟨_, _, step_eq_ok.2 (.completed hpending), .completed hpending⟩
  by_cases hnodes : active = []
  · rw [if_pos (by simp [hnodes])]
    exact ⟨_, _, step_eq_ok.2 (.noActiveNodes hpending hnodes), .noActiveNodes hpending hnodes⟩
  rw [if_neg (by simp [hpending, hnodes])]
  obtain ⟨cluster, hpass, hchain, hpods, hqueues, hmode⟩ := pass_spec hactive hs.nonneg
    (policy.podOrder.readyPods s.pending s.clock) (fun pod hpod => (mem_readyPods.1 hpod).2)
    hs.queues hs.mode s.schedule
  have htried : Tried policy active s _ cluster :=
    ⟨hpending, hnodes, hchain, hpods, hqueues, hmode⟩
  generalize Simulation.attempts policy active s.clock _ s.cluster = log at *
  by_cases hplaced : bookings log = []
  · rw [hplaced, Schedule.book_nil, List.map_nil] at hpass
    cases hevent : nextEvent? s.pending cluster.nodes active s.clock with
    | some event =>
      exact ⟨_, _, step_eq_ok.2 (.waited hpending hnodes hpass hevent), .waited htried hplaced hevent⟩
    | none =>
      exact ⟨_, _, step_eq_ok.2 (.stuck hpending hnodes hpass hevent), .stuck htried hplaced hevent⟩
  · exact ⟨_, _, step_eq_ok.2 (.placed hpending hnodes hpass (by simpa using hplaced)),
      .placed htried hplaced⟩

namespace Tried

variable {policy : Policy} {active : List (Fin n)} {s : State n} {log : List (Attempt n)}
  {cluster : Cluster n}

/-- Only pending pods are tried. -/
theorem mem_pending (h : Tried policy active s log cluster) : ∀ a ∈ log, a.pod ∈ s.pending := by
  intro a ha
  have hmem : a.pod ∈ log.map Attempt.pod := List.mem_map_of_mem ha
  rw [h.pods] at hmem
  exact (mem_readyPods.1 hmem).1

/-- A pending pod that was submitted by the clock is tried. -/
theorem exists_try (h : Tried policy active s log cluster) {pod : Pod} (hpod : pod ∈ s.pending)
    (hsubmit : pod.submit ≤ s.clock) : ∃ a ∈ log, a.pod = pod := by
  rw [← List.mem_map, h.pods]
  exact mem_readyPods.2 ⟨hpod, hsubmit⟩

/-- The pods that are placed are pending ones, each as often as it is pending at most. -/
theorem pods_bookings_subperm (h : Tried policy active s log cluster) :
    ((bookings log).map Booking.pod).Subperm s.pending := by
  have hready := (pods_bookings_sublist log).subperm
  rw [h.pods] at hready
  exact hready.trans
    ((readyPods_perm _ _ _).subperm.trans (List.filter_sublist (l := s.pending)).subperm)

/-- If the numbers of the pending pods are distinct, exactly the placed pods leave. -/
theorem pending_perm (h : Tried policy active s log cluster) (hids : (s.pending.map Pod.id).Nodup) :
    ((bookings log).map Booking.pod ++
      s.pending.filter fun p => !((bookings log).map fun b => b.pod.id).contains p.id).Perm
        s.pending := by
  have hsub := h.pods_bookings_subperm
  have hnodup : s.pending.Nodup := List.Nodup.of_map Pod.id hids
  have hleave : ((bookings log).map Booking.pod).Perm
      (s.pending.filter fun p => ((bookings log).map fun b => b.pod.id).contains p.id) := by
    refine (List.perm_ext_iff_of_nodup ?_ (hnodup.filter _)).2 ?_
    · obtain ⟨pods, hperm, hpods⟩ := hsub
      exact hperm.nodup_iff.1 (hnodup.sublist hpods)
    · intro pod
      rw [List.mem_filter, List.contains_iff_mem]
      constructor
      · intro hpod
        obtain ⟨b, hb, rfl⟩ := List.mem_map.1 hpod
        exact ⟨hsub.subset hpod, List.mem_map.2 ⟨b, hb, rfl⟩⟩
      · rintro ⟨hpod, hid⟩
        obtain ⟨b, hb, hid⟩ := List.mem_map.1 hid
        have hbpod : b.pod ∈ (bookings log).map Booking.pod := List.mem_map_of_mem hb
        rw [← List.inj_on_of_nodup_map hids (hsub.subset hbpod) hpod hid]
        exact hbpod
  exact (hleave.append_right _).trans (List.filter_append_perm _ _)

end Tried

namespace Transition

variable {policy : Policy} {active : List (Fin n)} {s s' : State n} {log : List (Attempt n)}
  {status? : Option Status}

/-- The tries of a step follow one another and lead to the cluster after the step. -/
theorem chain (h : Transition policy active s log s' status?) :
    Chain policy active s.clock s.cluster log s'.cluster := by
  cases h with
  | completed | noActiveNodes => exact .nil s.cluster
  | placed htried | waited htried | stuck htried => exact htried.chain

/-- The tries of a step are made on the pods that are ready, provided there are active nodes. -/
theorem map_pod (h : Transition policy active s log s' status?) : log.map Attempt.pod =
    if active = [] then [] else policy.podOrder.readyPods s.pending s.clock := by
  cases h with
  | completed hpending =>
    rw [hpending]
    split <;> rfl
  | noActiveNodes _ hactive => rw [if_pos hactive]; rfl
  | placed htried | waited htried | stuck htried => rw [if_neg htried.hasActive, htried.pods]

/-- Only pending pods are tried. -/
theorem mem_pending (h : Transition policy active s log s' status?) : ∀ a ∈ log, a.pod ∈ s.pending := by
  cases h with
  | completed | noActiveNodes => intro a ha; cases ha
  | placed htried | waited htried | stuck htried => exact htried.mem_pending

/-- Pods that are pending after a step were pending before. -/
theorem pending_sublist (h : Transition policy active s log s' status?) :
    s'.pending.Sublist s.pending := by
  cases h with
  | placed => exact List.filter_sublist
  | completed | noActiveNodes | waited | stuck => exact .refl _

/-- The bookings of a step are added to the schedule. -/
theorem schedule_eq (h : Transition policy active s log s' status?) :
    s'.schedule = s.schedule.book s.cluster.nodes (bookings log) := by
  cases h with
  | completed | noActiveNodes => rw [bookings_nil, Schedule.book_nil]
  | placed => rfl
  | waited _ hplaced | stuck _ hplaced => rw [hplaced, Schedule.book_nil]

/-- The clock stays or moves forward. -/
theorem clock_eq_or_lt (h : Transition policy active s log s' status?) :
    s'.clock = s.clock ∨ s.clock < s'.clock := by
  cases h with
  | completed | noActiveNodes | placed | stuck => exact .inl rfl
  | waited _ _ hevent =>
    right
    have hlt := (of_nextEvent? hevent).1
    exact Binary64.lt_of_lt_of_le hlt (Binary64.le_maxNum_left (Binary64.lt_iff.1 hlt).2.1 _)

/-- The clock never moves backward. -/
theorem clock_le (h : Transition policy active s log s' status?) (hs : s.Sound policy active) :
    s.clock ≤ s'.clock := by
  rcases h.clock_eq_or_lt with heq | hlt
  · rw [heq]
    exact Binary64.le_refl (Binary64.isNaN_of_le_right hs.nonneg)
  · exact Binary64.le_of_lt hlt

/-- A step keeps a state sound. -/
theorem sound (h : Transition policy active s log s' status?) (hs : s.Sound policy active) :
    s'.Sound policy active := by
  have hnonneg := Binary64.le_trans hs.nonneg (h.clock_le hs)
  cases h with
  | completed | noActiveNodes => exact hs
  | placed htried | waited htried | stuck htried => exact ⟨htried.queues, htried.mode, hnonneg⟩

/-- With distinct numbers, a pod pending before a step is placed in it or pending afterwards. -/
theorem pending_perm (h : Transition policy active s log s' status?)
    (hids : (s.pending.map Pod.id).Nodup) :
    ((bookings log).map Booking.pod ++ s'.pending).Perm s.pending := by
  cases h with
  | completed | noActiveNodes => exact .refl _
  | placed htried => exact htried.pending_perm hids
  | waited _ hplaced | stuck _ hplaced => rw [hplaced]; exact .refl _

end Transition

/-! ### Runs -/

/-- A run: from a state, with a log, to the state it ends in and the status it ends with. -/
inductive Runs (policy : Policy) (active : List (Fin n)) :
    State n → List (Attempt n) → State n → Status → Prop where
  /-- The last step. -/
  | stop {s s' : State n} {log : List (Attempt n)} {status : Status}
    (hstep : Transition policy active s log s' (some status)) : Runs policy active s log s' status
  /-- A step that others follow. -/
  | next {s s' s'' : State n} {log log' : List (Attempt n)} {status : Status}
    (hstep : Transition policy active s log s' none) (hrest : Runs policy active s' log' s'' status) :
    Runs policy active s (log ++ log') s'' status

namespace Runs

variable {policy : Policy} {active : List (Fin n)} {s s' : State n} {log : List (Attempt n)}
  {status : Status}

/-- What every try on a pod that was pending preserves, and what outlasts every move of the clock,
holds at the end of a run. The property may depend on the tries made so far. -/
theorem invariant {P : List (Attempt n) → Seconds → Cluster n → Prop} {K : Pod → Prop}
    (htry : ∀ done (a : Attempt n), a.Sound policy active → K a.pod → P done a.clock a.before →
      P (done ++ [a]) a.clock a.after)
    (hwait : ∀ done clock clock' cluster, clock < clock' → P done clock cluster → P done clock' cluster)
    (h : Runs policy active s log s' status) (hpending : ∀ pod ∈ s.pending, K pod)
    (done : List (Attempt n)) (hinit : P done s.clock s.cluster) :
    P (done ++ log) s'.clock s'.cluster := by
  -- One step preserves the property.
  have hstepP : ∀ {s s' : State n} {log : List (Attempt n)} {status? : Option Status}
      (done : List (Attempt n)), Transition policy active s log s' status? →
      (∀ pod ∈ s.pending, K pod) → P done s.clock s.cluster → P (done ++ log) s'.clock s'.cluster := by
    intro s s' log status? done hstep hpending hinit
    have hend : P (done ++ log) s.clock s'.cluster := by
      refine hstep.chain.invariant (P := fun done => P done s.clock) ?_ done hinit
      intro done a ha hbefore
      obtain ⟨hsound, hclock⟩ := hstep.chain.sound a ha
      rw [← hclock] at hbefore ⊢
      exact htry done a hsound (hpending _ (hstep.mem_pending a ha)) hbefore
    rcases hstep.clock_eq_or_lt with heq | hlt
    · rwa [heq]
    · exact hwait _ _ _ _ hlt hend
  induction h generalizing done with
  | stop hstep => exact hstepP done hstep hpending hinit
  | next hstep _ ih =>
    rw [← List.append_assoc]
    exact ih (fun pod hpod => hpending pod (hstep.pending_sublist.subset hpod)) _
      (hstepP done hstep hpending hinit)

/-- A run changes no capacity. -/
theorem capacity_eq (h : Runs policy active s log s' status) (j : Fin n) :
    s'.cluster.nodes[j].capacity = s.cluster.nodes[j].capacity ∧
      ∀ a ∈ log, a.before.nodes[j].capacity = s.cluster.nodes[j].capacity := by
  refine h.invariant (K := fun _ => True) (P := fun done _ c =>
    c.nodes[j].capacity = s.cluster.nodes[j].capacity ∧
      ∀ a ∈ done, a.before.nodes[j].capacity = s.cluster.nodes[j].capacity)
    ?_ ?_ (fun _ _ => trivial) [] ⟨rfl, fun a ha => absurd ha List.not_mem_nil⟩
  · rintro done a hsound - ⟨hbefore, hdone⟩
    refine ⟨(hsound.trial.capacity_eq j).trans hbefore, ?_⟩
    intro b hb
    rcases List.mem_append.1 hb with hb | hb
    · exact hdone b hb
    · rwa [List.mem_singleton.1 hb]
  · rintro done clock clock' cluster - hall
    exact hall

/-- What advancing and hosting pods preserve holds of all ledgers, at every try and at the end. It may
depend on the position of the ledger. -/
theorem ledger_invariant {Q : Fin n → Ledger → Prop} {K : Pod → Prop}
    (hadvance : ∀ j l t, Q j l → Q j (l.advance t))
    (hhost : ∀ (a : Attempt n) (j : Fin n), a.Sound policy active → K a.pod → Q j a.before.nodes[j] →
      a.before.nodes[j].canAdmit a.pod.requests (a.before.offer a.pod a.clock j) = true →
      Q j (a.before.nodes[j].host a.pod (a.before.offer a.pod a.clock j)))
    (h : Runs policy active s log s' status) (hpending : ∀ pod ∈ s.pending, K pod)
    (hinit : ∀ j : Fin n, Q j s.cluster.nodes[j]) :
    (∀ j : Fin n, Q j s'.cluster.nodes[j]) ∧ ∀ a ∈ log, ∀ j : Fin n, Q j a.before.nodes[j] := by
  refine h.invariant (P := fun done _ c =>
    (∀ j : Fin n, Q j c.nodes[j]) ∧ ∀ a ∈ done, ∀ j : Fin n, Q j a.before.nodes[j]) ?_ ?_ hpending []
    ⟨hinit, fun a ha => absurd ha List.not_mem_nil⟩
  · rintro done a hsound hK ⟨hnow, hdone⟩
    constructor
    · intro j
      rcases hsound.trial.ledger j with ⟨-, hj | hj⟩ | ⟨p, -, -, -, hadmits, hj⟩
      · rw [hj]
        exact hnow j
      · rw [hj]
        exact hadvance _ _ _ (hnow j)
      · rw [hj]
        exact hhost a j hsound hK (hnow j) hadmits
    · intro b hb
      rcases List.mem_append.1 hb with hb | hb
      · exact hdone b hb
      · rw [List.mem_singleton.1 hb]
        exact hnow
  · rintro done clock clock' cluster - hall
    exact hall

/-- A run changes no name. -/
theorem name_eq (h : Runs policy active s log s' status) (j : Fin n) :
    s'.cluster.nodes[j].name = s.cluster.nodes[j].name := by
  refine (h.ledger_invariant (Q := fun j l => l.name = s.cluster.nodes[j].name)
    (K := fun _ => True) ?_ ?_ (fun _ _ => trivial) fun _ => rfl).1 j
  · intro j l t hname
    exact hname
  · intro a j _ _ hname _
    rw [Ledger.name_host]
    exact hname

/-- Every try of a run is sound, and made on a pod that was pending. -/
theorem sound (h : Runs policy active s log s' status) :
    ∀ a ∈ log, a.Sound policy active ∧ a.pod ∈ s.pending := by
  induction h with
  | stop hstep => exact fun a ha => ⟨(hstep.chain.sound a ha).1, hstep.mem_pending a ha⟩
  | next hstep _ ih =>
    intro a ha
    rcases List.mem_append.1 ha with ha | ha
    · exact ⟨(hstep.chain.sound a ha).1, hstep.mem_pending a ha⟩
    · exact ⟨(ih a ha).1, hstep.pending_sublist.subset (ih a ha).2⟩

/-- No try of a run is made before the clock it begins at. -/
theorem clock_le (h : Runs policy active s log s' status) (hs : s.Sound policy active) :
    ∀ a ∈ log, s.clock ≤ a.clock := by
  have hfirst : s.clock ≤ s.clock := Binary64.le_refl (Binary64.isNaN_of_le_right hs.nonneg)
  induction h with
  | stop hstep =>
    intro a ha
    rwa [(hstep.chain.sound a ha).2]
  | next hstep _ ih =>
    have hnext := hstep.clock_le hs
    intro a ha
    rcases List.mem_append.1 ha with ha | ha
    · rwa [(hstep.chain.sound a ha).2]
    · have hlater := Binary64.le_refl (Binary64.isNaN_of_le_right hnext)
      exact Binary64.le_trans hnext (ih (hstep.sound hs) hlater a ha)

/-- The bookings of a run are added to the schedule. -/
theorem schedule_eq (h : Runs policy active s log s' status) :
    s'.schedule = s.schedule.book s.cluster.nodes (bookings log) := by
  induction h with
  | stop hstep => exact hstep.schedule_eq
  | next hstep _ ih =>
    have hnames := Booking.record_congr hstep.chain.name_eq
    rw [ih, hstep.schedule_eq, bookings_append, Schedule.book_append, Schedule.book, hnames]
    rfl

/-- With distinct numbers, a pod pending before a run is placed in it or pending afterwards. -/
theorem pending_perm (h : Runs policy active s log s' status) (hids : (s.pending.map Pod.id).Nodup) :
    ((bookings log).map Booking.pod ++ s'.pending).Perm s.pending := by
  induction h with
  | stop hstep => exact hstep.pending_perm hids
  | next hstep _ ih =>
    have hrest := ih (hids.sublist (hstep.pending_sublist.map Pod.id))
    rw [bookings_append, List.map_append, List.append_assoc]
    exact (hrest.append_left _).trans (hstep.pending_perm hids)

/-- A run ends with one last step, from a sound state in which no new pods are pending. -/
theorem last (h : Runs policy active s log s' status) (hs : s.Sound policy active) : ∃ t done log',
    log = done ++ log' ∧ t.Sound policy active ∧ t.pending.Sublist s.pending ∧
      Transition policy active t log' s' (some status) := by
  induction h with
  | @stop s s' log status hstep => exact ⟨s, [], log, rfl, hs, .refl _, hstep⟩
  | @next s s' s'' log log' status hstep _ ih =>
    obtain ⟨t, done, last, rfl, ht, hsub, hlast⟩ := ih (hstep.sound hs)
    exact ⟨t, log ++ done, last, (List.append_assoc _ _ _).symm, ht, hsub.trans hstep.pending_sublist,
      hlast⟩

end Runs

end Simulation

end PodPlacement
