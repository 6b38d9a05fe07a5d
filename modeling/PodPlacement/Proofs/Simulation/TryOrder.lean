import PodPlacement.Proofs.Arrangement
import PodPlacement.Proofs.Simulation.WorkConserving

/-! # The order of the tries of a pass

The pods of a pass are sorted by what `PodOrder.before` says of them, and the sort leaves pods that it says
nothing about in the order in which they are pending. If jobs are ordered by size, that is the order in
which the pods were arranged at the beginning, since pods leave it without the others changing places. So
all passes try pods in one strict order, in which the sizes of jobs are those of all pods that were given.

* `tryOrder` — the order; `eq_of_tryOrder` — no two pods are alike in it;
  `pairwise_readyPods_of_sublist` — pods that are left of the arranged ones are tried in it.
* `Visits.pending_sublist` — in every state of a simulation, what is pending is left of the arranged pods.
* `TriesInOrder` — what is tried in a pass and in which order; `run_tries` — it holds of every pass. -/

namespace PodPlacement

/-! ### Ready pods and their positions -/

namespace PodOrder

variable {order : PodOrder} {pending : List Pod} {clock : Seconds}

/-- The positions of ready pods are those of the pending pods submitted by the clock. -/
theorem mem_ready {pod : Pod} {i : Nat} :
    (pod, i) ∈ order.ready pending clock ↔ pending[i]? = some pod ∧ pod.submit ≤ clock := by
  rw [ready, (sortBy_perm _ _).mem_iff, List.mem_filter, List.mem_zipIdx_iff_getElem?, decide_eq_true_eq]

/-- No position is listed twice. -/
theorem nodup_ready (order : PodOrder) (pending : List Pod) (clock : Seconds) :
    ((order.ready pending clock).map Prod.snd).Nodup := by
  have hpositions : (pending.zipIdx.map Prod.snd).Nodup := by
    rw [List.zipIdx_map_snd]
    exact List.nodup_range'
  rw [ready, ((sortBy_perm _ _).map Prod.snd).nodup_iff]
  exact hpositions.sublist (List.filter_sublist.map Prod.snd)

end PodOrder

/-! ### The order -/

/-- Which of two pods of some given ones is tried first: what the order of pods says decides, then which of
their jobs is first by size and then by least number, and then the numbers of the pods. -/
def tryOrder (policy : Policy) (pods : List Pod) : Pod → Pod → Ordering :=
  compareLex policy.podOrder.before (policy.jobOrder.comparePods pods)

instance (policy : Policy) (pods : List Pod) : Std.TransCmp (tryOrder policy pods) :=
  inferInstanceAs (Std.TransCmp (compareLex _ _))

/-- Pods with distinct numbers are all tried one before the other. -/
theorem eq_of_tryOrder {policy : Policy} {pods : List Pod} (hids : (pods.map Pod.id).Nodup) {p q : Pod}
    (hp : p ∈ pods) (hq : q ∈ pods) (h : tryOrder policy pods p q = .eq) : p = q := by
  have hplaces : policy.jobOrder.comparePods pods p q = .eq := (Ordering.then_eq_eq.1 h).2
  exact eq_of_id_eq hids hp hq (Nat.compare_eq_eq.1 (Ordering.then_eq_eq.1 hplaces).2)

/-- Pods that are left of the arranged ones are tried in one strict order. -/
theorem pairwise_readyPods_of_sublist {policy : Policy} (hjobs : policy.jobOrder ≠ .input)
    {pods pending : List Pod} (hids : (pods.map Pod.id).Nodup)
    (hpending : pending.Sublist (policy.jobOrder.arrange pods)) (clock : Seconds) :
    (policy.podOrder.readyPods pending clock).Pairwise fun p q => tryOrder policy pods p q = .lt := by
  rw [PodOrder.readyPods_eq_sortBy]
  exact pairwise_sortBy_compareLex (((JobOrder.pairwise_arrange hjobs hids).sublist hpending).filter _)

namespace Simulation

variable {n : Nat} {policy : Policy} {active : List (Fin n)}

/-- What is pending is left of what was pending before. -/
theorem Visits.pending_sublist {s t : State n} (h : Visits policy active s t) (hactive : active.Nodup)
    (hs : s.Sound policy active) : t.pending.Sublist s.pending := by
  induction h with
  | here => exact .refl _
  | next h hstep ih =>
    exact (transition_of_step hactive (h.sound hactive hs) hstep).pending_sublist.trans ih

/-! ### Passes -/

/-- What is tried in a state of a simulation of some given pods, and in which order. -/
structure TriesInOrder (policy : Policy) (active : List (Fin n)) (pods : List Pod) (s : State n) :
    Prop where
  /-- What is pending is left of the arranged pods. -/
  pending : s.pending.Sublist (policy.jobOrder.arrange pods)
  /-- The positions of exactly the pending pods that were submitted are listed. -/
  mem : ∀ pod i, (pod, i) ∈ policy.podOrder.ready s.pending s.clock ↔
    s.pending[i]? = some pod ∧ pod.submit ≤ s.clock
  /-- Each is listed once. -/
  once : ((policy.podOrder.ready s.pending s.clock).map Prod.snd).Nodup
  /-- They are listed in one strict order, which depends on the given pods only. -/
  inOrder : (policy.podOrder.ready s.pending s.clock).Pairwise fun x y =>
    tryOrder policy pods x.1 y.1 = .lt
  /-- The pods are tried as they are listed. -/
  tried : active ≠ [] → (s.attempts policy active).map Attempt.pod =
    (policy.podOrder.ready s.pending s.clock).map Prod.fst

/-- If jobs are ordered by size, each pass tries the pods in one strict order. -/
theorem Visits.triesInOrder (hjobs : policy.jobOrder ≠ .input) (nodes : List Ledger) {pods : List Pod}
    (hids : (pods.map Pod.id).Nodup) {s : State nodes.length}
    (hs : Visits policy (activeNodes (positions nodes)) (initial policy (positions nodes) pods) s) :
    TriesInOrder policy (activeNodes (positions nodes)) pods s := by
  have hactive := nodup_activeNodes (positions nodes)
  have hinitial := sound_initial policy (positions nodes) pods
  have hpending : s.pending.Sublist (policy.jobOrder.arrange pods) := hs.pending_sublist hactive hinitial
  obtain ⟨_, _, -, hstep⟩ := step_spec hactive (hs.sound hactive hinitial)
  refine ⟨hpending, fun _ _ => PodOrder.mem_ready, PodOrder.nodup_ready _ _ _, ?_, ?_⟩
  · exact List.pairwise_map.1 (pairwise_readyPods_of_sublist hjobs hids hpending s.clock)
  · intro hnodes
    rw [hstep.map_pod, if_neg hnodes]
    rfl

/-- If the shortest or the longest job is taken first, there is one total order in which no two of the given
pods are alike: by duration, then by the size of the job, then by the least number of the job, and then by
number. In every pass of the simulation the pods that are pending and were submitted are tried in this
order, each once. -/
theorem run_tries {heuristic : Heuristic}
    (hjobs : heuristic = .shortestJobFirst ∨ heuristic = .longestJobFirst) (nodes : List Ledger)
    {pods : List Pod} (hids : (pods.map Pod.id).Nodup) :
    Std.TransCmp (tryOrder heuristic.policy pods) ∧
      (∀ p ∈ pods, ∀ q ∈ pods, tryOrder heuristic.policy pods p q = .eq → p = q) ∧
      ∀ s, Visits heuristic.policy (activeNodes (positions nodes))
        (initial heuristic.policy (positions nodes) pods) s →
          TriesInOrder heuristic.policy (activeNodes (positions nodes)) pods s := by
  have hbySize : heuristic.policy.jobOrder ≠ .input := by rcases hjobs with rfl | rfl <;> decide
  refine ⟨inferInstance, ?_, fun s hs => hs.triesInOrder hbySize nodes hids⟩
  intro p hp q hq h
  exact eq_of_tryOrder hids hp hq h

/-- Pods of three jobs. Two jobs have one size, the durations are one of two, and four pods fit nowhere on
a node of two cores. -/
def tiedPods : List Pod :=
  [{ Pod.ofCores 1 0 20 1 with job := "b" }, { Pod.ofCores 2 0 10 4 with job := "a" },
    { Pod.ofCores 3 0 10 4 with job := "b" }, { Pod.ofCores 4 0 20 4 with job := "a" },
    { Pod.ofCores 5 0 10 1 with job := "c" }, { Pod.ofCores 6 0 10 4 with job := "c" }]

/-- The order after a pass in which two of the pods were placed. By the sums of what is left, job `b` would
come before `c`; but sizes count the pods that were placed, so pod 6 of job `c` is still tried first. -/
theorem run_tries_tied : ∃ s,
    step Heuristic.shortestJobFirst.policy (activeNodes (positions [.idle "n" (.ofCpu 2)]))
        (initial Heuristic.shortestJobFirst.policy (positions [.idle "n" (.ofCpu 2)]) tiedPods) =
      .ok (s, none) ∧
      s.pending.map Pod.id = [6, 3, 2, 4] ∧
      TriesInOrder Heuristic.shortestJobFirst.policy (activeNodes (positions [.idle "n" (.ofCpu 2)]))
        tiedPods s := by
  have hids : (tiedPods.map Pod.id).Nodup := by decide
  have hpass : (step Heuristic.shortestJobFirst.policy (activeNodes (positions [.idle "n" (.ofCpu 2)]))
      (initial Heuristic.shortestJobFirst.policy (positions [.idle "n" (.ofCpu 2)]) tiedPods)).toOption.any
      (fun x => decide (x.2 = none ∧ x.1.pending.map Pod.id = [6, 3, 2, 4])) = true := by decide +kernel
  cases hstep : step Heuristic.shortestJobFirst.policy (activeNodes (positions [.idle "n" (.ofCpu 2)]))
      (initial Heuristic.shortestJobFirst.policy (positions [.idle "n" (.ofCpu 2)]) tiedPods) with
  | error breach =>
    rw [hstep] at hpass
    cases hpass
  | ok result =>
    obtain ⟨s, status?⟩ := result
    rw [hstep] at hpass
    obtain ⟨hnone, hleft⟩ : status? = none ∧ s.pending.map Pod.id = [6, 3, 2, 4] := of_decide_eq_true hpass
    subst hnone
    exact ⟨s, rfl, hleft,
      (run_tries (.inl rfl) [.idle "n" (.ofCpu 2)] hids).2.2 s (.next .here hstep)⟩

-- Of the pods that take 10, those of the smallest job come first, and of two jobs of one size the one that
-- holds pod 1.
example : (Heuristic.shortestJobFirst.policy.podOrder.readyPods
    (Heuristic.shortestJobFirst.policy.jobOrder.arrange tiedPods) 0).map Pod.id = [5, 6, 3, 2, 1, 4] := by
  decide +kernel

end Simulation

end PodPlacement
