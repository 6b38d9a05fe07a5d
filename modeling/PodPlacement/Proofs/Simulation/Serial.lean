import PodPlacement.Proofs.Simulation.Abort
import PodPlacement.Proofs.Simulation.Timeline

/-! # One pod at a time

A node that places ahead offers a pod the instant at which the next pod on it finishes. If at most one
pod runs on the node, that is the instant the node becomes empty, so the pod starts alone and again at
most one pod runs. Hence the records on a node follow one another, whatever room was left on it.

A ledger may have dropped its pod before: a try that is declined advances it. The pod has finished by
the instant the ledger has reached then, and no later start precedes that instant.

* `Serial` — a ledger on which at most one pod runs, with the bookings made on it.
* `Serial.advance`, `Serial.host` — what a try does to a ledger keeps it serial.
* `Runs.serial` — all ledgers of a run that places ahead are serial.
* `runPolicy_serial` — the records on each node do not overlap. -/

namespace PodPlacement

variable {n : Nat}

/-- A ledger on which at most one pod runs, and the bookings made on it. -/
structure Serial (bs : List (Booking n)) (l : Ledger) : Prop where
  /-- The ledger is sorted. -/
  sorted : l.Sorted
  /-- At most one pod runs. -/
  single : l.pods.length ≤ 1
  /-- It finishes at a number. -/
  finish : ∀ p ∈ l.pods, p.finish.isNaN = false
  /-- The instant the ledger has reached is a number. -/
  reached : l.advancedTo.isNaN = false
  /-- A booked pod has finished by the instant the ledger has reached, or it is the one that runs. -/
  ended : ∀ b ∈ bs, b.finish ≤ l.advancedTo ∨ ∃ p ∈ l.pods, p.finish = b.finish
  /-- The bookings follow one another. -/
  inOrder : bs.Pairwise fun b b' => b.finish ≤ b'.start

namespace Serial

variable {bs : List (Booking n)} {l : Ledger}

/-- An idle ledger without bookings. -/
theorem idle (name : String) (capacity : Resources) :
    Serial ([] : List (Booking n)) (Ledger.idle name capacity) where
  sorted := Ledger.sorted_idle name capacity
  single := Nat.zero_le 1
  finish := fun _ hp => absurd hp List.not_mem_nil
  reached := rfl
  ended := fun _ hb => absurd hb List.not_mem_nil
  inOrder := .nil

/-- With at most one pod, all pods finish at one instant. -/
theorem together (h : Serial bs l) : l.Together := by
  intro p hp q hq
  have hsingle := h.single
  have hfinish := h.finish q hq
  match hpods : l.pods with
  | [] =>
    rw [hpods] at hp
    cases hp
  | [r] =>
    rw [hpods, List.mem_singleton] at hp hq
    rw [hp, ← hq]
    exact Binary64.le_refl hfinish
  | _ :: _ :: _ =>
    rw [hpods] at hsingle
    simp at hsingle

/-- Advancing keeps a ledger serial: a pod that leaves has finished. -/
theorem advance (h : Serial bs l) (t : Seconds) : Serial bs (l.advance t) where
  sorted := h.sorted.advance t
  single := (Ledger.pods_advance_subperm l t).length_le.trans h.single
  finish := fun p hp => h.finish p (Ledger.mem_pods_of_mem_advance hp)
  reached := Binary64.isNaN_maxNum_left h.reached t
  ended := by
    intro b hb
    rw [Ledger.advancedTo_advance]
    rcases h.ended b hb with hended | ⟨p, hp, hfinish⟩
    · exact .inl (Binary64.le_trans hended (Binary64.le_maxNum_left h.reached t))
    · -- The pod that ran has left because it has finished, or it still runs.
      rcases List.mem_append.1 ((Ledger.completedBy_perm l t).mem_iff.2 hp) with hgone | hstays
      · have hle := Ledger.finish_le_of_mem_completedBy hgone
        rw [hfinish] at hle
        exact .inl (Binary64.le_trans hle
          (Binary64.le_maxNum_right l.advancedTo (Binary64.isNaN_of_le_right hle)))
      · exact .inr ⟨p, hstays, hfinish⟩
  inOrder := h.inOrder

/-- A pod that starts when the ledger is free, and not before the instant the ledger has reached, keeps
it serial: the new pod is alone, and everything booked before has finished. -/
theorem host (h : Serial bs l) {b : Booking n} (hfree : l.earliestFree ≤ b.start)
    (hstart : l.advancedTo ≤ b.start) (hfinish : b.finish = b.start + b.pod.duration)
    (hduration : b.pod.duration.isFinite = true) : Serial (bs ++ [b]) (l.host b.pod b.start) := by
  have hadvanced := h.advance b.start
  have hnum : b.start.isNaN = false := Binary64.isNaN_of_le_right hstart
  -- The ledger is empty when the new pod starts, so nothing booked before is left to finish.
  have hempty := h.sorted.pods_advance_eq_nil h.together hfree
  have hpods := Ledger.pods_host_perm l b.pod b.start
  rw [hempty] at hpods
  have hbefore : ∀ b' ∈ bs, b'.finish ≤ (l.advance b.start).advancedTo := by
    intro b' hb'
    rcases hadvanced.ended b' hb' with hended | ⟨p, hp, -⟩
    · exact hended
    · rw [hempty] at hp
      cases hp
  refine ⟨hadvanced.sorted.start _, by rw [hpods.length_eq]; exact Nat.le_refl 1, ?_,
    hadvanced.reached, ?_, ?_⟩
  · intro p hp
    rw [List.mem_singleton.1 (hpods.mem_iff.1 hp)]
    exact Binary64.isNaN_add_of_isFinite hnum hduration
  · intro b' hb'
    rcases List.mem_append.1 hb' with hb' | hb'
    · exact .inl (hbefore b' hb')
    · rw [List.mem_singleton.1 hb', hfinish]
      exact .inr ⟨_, hpods.mem_iff.2 List.mem_cons_self, rfl⟩
  · refine List.pairwise_append.2 ⟨h.inOrder, List.pairwise_singleton _ _, ?_⟩
    intro b' hb' c hc
    rw [List.mem_singleton.1 hc]
    exact Binary64.le_trans (hbefore b' hb') (Binary64.maxNum_le hstart (Binary64.le_refl hnum))

end Serial

/-- Of records that follow one another, at most one holds resources at any instant. -/
theorem length_filter_isRunningAt_le_one {rs : List Record}
    (h : rs.Pairwise fun r r' => r.finish ≤ r'.start) (t : Seconds) :
    (rs.filter fun r => r.isRunningAt t).length ≤ 1 := by
  have hpair := h.filter fun r => r.isRunningAt t
  have hrunning : ∀ r ∈ rs.filter fun r => r.isRunningAt t, r.start ≤ t ∧ t < r.finish := by
    intro r hr
    simpa [Record.isRunningAt] using (List.mem_filter.1 hr).2
  generalize rs.filter (fun r => r.isRunningAt t) = running at hpair hrunning
  match running with
  | [] => exact Nat.zero_le 1
  | [_] => exact Nat.le_refl 1
  | r :: r' :: _ =>
    -- The first of two records would have finished before the second one started.
    have hle := (List.pairwise_cons.1 hpair).1 r' List.mem_cons_self
    have hstart := (hrunning r' (by simp)).1
    have hfinish := (hrunning r (by simp)).2
    exact absurd hfinish (Binary64.not_lt_of_le (Binary64.le_trans hle hstart))

namespace Simulation

variable {policy : Policy} {active : List (Fin n)}

/-- A try that places ahead keeps all ledgers serial. -/
theorem Attempt.Sound.serial {a : Attempt n} (h : a.Sound policy active)
    (hahead : policy.anticipates = true) (hduration : a.pod.duration.isFinite = true)
    {done : List (Attempt n)} {j : Fin n} (hserial : Serial (bookingsOn j done) a.before.nodes[j]) :
    Serial (bookingsOn j (done ++ [a])) a.after.nodes[j] := by
  rcases h.trial.ledger j with ⟨hne, hj | hj⟩ | ⟨p, hp, rfl, hstart, -, hj⟩
  · rw [bookingsOn_append_ne hne, hj]
    exact hserial
  · rw [bookingsOn_append_ne hne, hj]
    exact hserial.advance _
  · have hfree := h.earliestFree_le_offer hahead (Ledger.earliestFree_isNaN_of_finish hserial.finish)
    have hreached := h.advancedTo_le_offer hserial.reached fun hnow => by rw [hahead] at hnow; cases hnow
    rw [bookingsOn_append_eq hp, hj]
    rw [← hstart] at hfree hreached ⊢
    exact hserial.host (b := ⟨p, a.pod⟩) hfree hreached (h.trial.hosted p hp).2.2.1 hduration

/-- Along a run that places ahead, every ledger stays serial. -/
theorem Runs.serial {s s' : State n} {log : List (Attempt n)} {status : Status}
    (h : Runs policy active s log s' status) (hahead : policy.anticipates = true)
    (hdurations : ∀ pod ∈ s.pending, pod.duration.isFinite = true)
    (hinit : ∀ j : Fin n, Serial ([] : List (Booking n)) s.cluster.nodes[j]) (j : Fin n) :
    Serial (bookingsOn j log) s'.cluster.nodes[j] := by
  have hall := h.invariant (K := fun pod => pod.duration.isFinite = true)
    (P := fun done _ c => ∀ j : Fin n, Serial (bookingsOn j done) c.nodes[j]) ?_ ?_ hdurations [] hinit
  · exact hall j
  · intro done a hsound hduration hbefore j
    exact hsound.serial hahead hduration (hbefore j)
  · intro done clock clock' cluster _ hnow
    exact hnow

/-- If pods are placed ahead on nodes that are idle at first, the records on each node do not overlap:
each starts when all earlier ones there have finished, and at no instant two of them hold resources of
the node. It is enough that pods run for a finite time. -/
theorem runPolicy_serial {policy : Policy} (hahead : policy.anticipates = true) {nodes : List Ledger}
    (hidle : ∀ l ∈ nodes, l.IsIdle) (hnames : (nodes.map Ledger.name).Nodup) {pods : List Pod}
    (hdurations : ∀ pod ∈ pods, pod.duration.isFinite = true) :
    ∃ outcome, runPolicy policy nodes pods = .ok outcome ∧
      ∀ l ∈ nodes, ((outcome.schedule.recordsOn l.name).Pairwise fun r r' => r.finish ≤ r'.start) ∧
        ∀ t, (outcome.schedule.runningOn l.name t).length ≤ 1 := by
  obtain ⟨s, status, hends, hruns⟩ := ends_spec policy nodes pods
  refine ⟨_, hends.runPolicy_eq, ?_⟩
  intro l hl
  obtain ⟨i, hi, rfl⟩ := List.mem_iff_getElem.1 hl
  have hserial := hruns.serial hahead
    (fun pod hpod => hdurations pod ((arrange_perm policy.jobOrder pods).subset hpod))
    (fun j => by
      show Serial [] (positions nodes)[j]
      rw [isIdle_positions hidle j]
      exact .idle _ _)
    ⟨i, hi⟩
  have hpair : (s.schedule.recordsOn nodes[i].name).Pairwise fun r r' => r.finish ≤ r'.start := by
    have hrecords := recordsOn_eq hnames hruns.records_eq ⟨i, hi⟩
    rw [getElem_positions] at hrecords
    show (s.schedule.recordsOn (nodes.get ⟨i, hi⟩).name).Pairwise _
    rw [hrecords, List.pairwise_map]
    exact hserial.inOrder
  exact ⟨hpair, length_filter_isRunningAt_le_one hpair⟩

/-- Two pods run one after the other, although the node has room for both. -/
theorem runPolicy_serial_pair : ∃ outcome,
    runPolicy Heuristic.shortestJobFirst.policy [.idle "a" (.ofCpu 4)]
        [.ofCores 1 0 10 1, .ofCores 2 0 10 1] = .ok outcome ∧
      ∀ l ∈ [Ledger.idle "a" (.ofCpu 4)],
        ((outcome.schedule.recordsOn l.name).Pairwise fun r r' => r.finish ≤ r'.start) ∧
          ∀ t, (outcome.schedule.runningOn l.name t).length ≤ 1 := by
  refine runPolicy_serial rfl ?_ ?_ ?_
  · simp
  · decide
  · decide +kernel

end Simulation

end PodPlacement
