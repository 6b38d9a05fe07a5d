import PodPlacement.Proofs.Ledger.Balance
import PodPlacement.Proofs.Simulation.Accounting

/-! # The start a pod is given ahead

A pod that is placed ahead goes to the node that is free earliest among those that admit it. The start is
also held back to the instant the ledger of the node has reached, and that instant takes no part in the
order of the queue. So the start is the earliest one on offer exactly if the chosen ledger has not gone
beyond the other offers; a rejected try of another pod can carry it there.

* `runPolicy_start_le_startOn_iff` — when the start that is given is no later than another one on offer.
* `exists_startOn_lt_start` — it can be later: a node that was emptied by a rejected try comes first in
  the queue although its ledger has gone beyond the start another node offers. -/

namespace PodPlacement

namespace Simulation

/-! ### Offers -/

namespace Attempt

variable {n : Nat} (a : Attempt n) (j : Fin n)

/-- The start a node offers the pod ahead, as its ledger stands before the try. -/
def startOn : Seconds := Cluster.startOn a.before.nodes[j] a.pod a.clock

/-- The node admits the pod at the start it offers. -/
def admits : Bool := a.before.nodes[j].canAdmit a.pod.requests (a.startOn j)

/-- When the node is free. -/
def earliestFree : Seconds := a.before.nodes[j].earliestFree

/-- The instant the ledger of the node has reached. -/
def advancedTo : Seconds := a.before.nodes[j].advancedTo

variable {a j} {policy : Policy} {active : List (Fin n)} {p : Placement n}

/-- A pod that is placed ahead starts at the offer of the chosen node, which is free no later than any
other active node that admits the pod. -/
theorem Sound.start_eq (h : a.Sound policy active) (hactive : active.Nodup)
    (hahead : policy.anticipates = true) (hp : a.placement? = some p) :
    p.start = a.startOn p.node ∧ ∀ j ∈ active, a.admits j = true →
      (a.earliestFree p.node).rank ≤ (a.earliestFree j).rank := by
  constructor
  · rw [(h.trial.hosted p hp).2.1, h.offer_eq_startOn hahead, startOn]
  · intro j hj hadmits
    have hplace := h.placed
    rw [hp] at hplace
    have hqueue : a.before.queue?.isSome = true := by rw [h.mode, hahead]
    exact NodeQueue.earliestFree_rank_le
      (Cluster.place_first hactive h.queues hqueue hplace hj hadmits)

/-- A start given ahead is no later than another one on offer exactly if the chosen ledger has not gone
beyond that offer; if the other node is never free, the chosen one has to be free by then as well, or
never. -/
theorem Sound.start_le_iff (h : a.Sound policy active) (hactive : active.Nodup)
    (hahead : policy.anticipates = true) (hnum : ∀ j, (a.advancedTo j).isNaN = false)
    (hp : a.placement? = some p) (hj : j ∈ active) (hadmits : a.admits j = true) :
    p.start ≤ a.startOn j ↔ a.advancedTo p.node ≤ a.startOn j ∧
      ((a.earliestFree j).isNaN = true →
        (a.earliestFree p.node).isNaN = true ∨ a.earliestFree p.node ≤ a.startOn j) := by
  obtain ⟨hstart, hfirst⟩ := h.start_eq hactive hahead hp
  rw [hstart]
  have hclock : a.clock ≤ a.startOn j := Cluster.clock_le_startOn h.clock_isNaN
  constructor
  · intro hle
    refine ⟨Binary64.le_trans (Cluster.advancedTo_le_startOn (hnum p.node)) hle, ?_⟩
    intro _
    cases hfree : (a.earliestFree p.node).isNaN with
    | true => exact .inl rfl
    | false => exact .inr (Binary64.le_trans (Cluster.earliestFree_le_startOn hfree) hle)
  · rintro ⟨hadvanced, hnever⟩
    refine Cluster.startOn_le ?_ hclock (Binary64.le_trans h.submitted hclock) hadvanced
    cases hfree : (a.earliestFree j).isNaN with
    | true => exact hnever hfree
    | false =>
      -- Both instants at which the nodes are free are numbers, so their ranks compare them.
      exact .inr (Binary64.le_of_rank_le (hfirst j hj hadmits) (Cluster.earliestFree_le_startOn hfree))

end Attempt

/-- From ledgers that have reached a number, ledgers always have. -/
theorem Runs.advancedTo_isNaN {n : Nat} {policy : Policy} {active : List (Fin n)} {s s' : State n}
    {log : List (Attempt n)} {status : Status} (h : Runs policy active s log s' status)
    (hinit : ∀ j : Fin n, s.cluster.nodes[j].advancedTo.isNaN = false) :
    ∀ a ∈ log, ∀ j, (a.advancedTo j).isNaN = false := by
  refine (h.ledger_invariant (Q := fun _ l => l.advancedTo.isNaN = false) (K := fun _ => True)
    ?_ ?_ (fun _ _ => trivial) hinit).2
  · intro _ l t hl
    exact Binary64.isNaN_maxNum_left hl t
  · intro a j _ _ hl _
    exact Binary64.isNaN_maxNum_left hl _

/-! ### Simulations -/

/-- From idle nodes, a policy that anticipates books the pods that are placed in its tries, and a start
it gives is no later than the start another active node offers and would admit the pod at exactly if the
ledger of the chosen node has not gone beyond that offer; if the other node is never free, the chosen
one has to be free by then as well, or never. -/
theorem runPolicy_start_le_startOn_iff (policy : Policy) (hahead : policy.anticipates = true)
    (nodes : List Ledger) (hidle : ∀ l ∈ nodes, l.IsIdle) (pods : List Pod) : ∃ outcome,
      runPolicy policy nodes pods = .ok outcome ∧
        outcome.schedule.records =
          (bookings (history policy nodes pods)).map (Booking.record (positions nodes)) ∧
        ∀ a ∈ history policy nodes pods, ∀ p, a.placement? = some p →
          ∀ j : Fin nodes.length, (nodes.get j).isActive = true → a.admits j = true →
            (p.start ≤ a.startOn j ↔ a.advancedTo p.node ≤ a.startOn j ∧
              ((a.earliestFree j).isNaN = true →
                (a.earliestFree p.node).isNaN = true ∨ a.earliestFree p.node ≤ a.startOn j)) := by
  obtain ⟨s, status, hends, hruns⟩ := ends_spec policy nodes pods
  refine ⟨_, hends.runPolicy_eq, ?_, ?_⟩
  · exact hruns.records_eq
  · intro a ha p hp j hj hadmits
    have hnum := hruns.advancedTo_isNaN fun j => by
      show (positions nodes)[j].advancedTo.isNaN = false
      rw [(isIdle_positions hidle j).advancedTo_eq]
      rfl
    exact (hruns.sound a ha).1.start_le_iff (nodup_activeNodes _) hahead (hnum a ha) hp
      (mem_activeNodes.2 hj) hadmits

/-- Three nodes on which the start of a small pod is held back. -/
def lateNodes : List Ledger := [.idle "a" (.ofCpu 8), .idle "b" (.ofCpu 2), .idle "c" (.ofCpu 16)]

/-- Four pods, the longest first. The third one is declined by `a` at the instant 50, when the second
one has finished there, and waits for `c`. -/
def latePods : List Pod := [.ofCores 1 0 60 16, .ofCores 2 0 50 8, .ofCores 3 0 5 16, .ofCores 4 0 1 1]

/-- The condition for the start that is given to be no later than another one on offer, on the three
nodes. -/
theorem runPolicy_start_le_startOn_iff_lateNodes : ∃ outcome,
    runPolicy Heuristic.longestJobFirst.policy lateNodes latePods = .ok outcome ∧
      outcome.schedule.records =
        (bookings (history Heuristic.longestJobFirst.policy lateNodes latePods)).map
          (Booking.record (positions lateNodes)) ∧
      ∀ a ∈ history Heuristic.longestJobFirst.policy lateNodes latePods, ∀ p, a.placement? = some p →
        ∀ j : Fin lateNodes.length, (lateNodes.get j).isActive = true → a.admits j = true →
          (p.start ≤ a.startOn j ↔ a.advancedTo p.node ≤ a.startOn j ∧
            ((a.earliestFree j).isNaN = true →
              (a.earliestFree p.node).isNaN = true ∨ a.earliestFree p.node ≤ a.startOn j)) :=
  runPolicy_start_le_startOn_iff _ rfl _ (by simp [lateNodes]) _

/-- A start given ahead can be later than another one on offer: on the three idle nodes the fourth pod
starts at 50 on `a`, which the declined pod left empty but advanced to that instant, although `b` offers
it the start 0 and admits it. -/
theorem exists_startOn_lt_start :
    Heuristic.longestJobFirst.policy.anticipates = true ∧ (∀ l ∈ lateNodes, l.IsIdle) ∧
      ∃ a ∈ history Heuristic.longestJobFirst.policy lateNodes latePods,
        ∃ p, a.placement? = some p ∧ ∃ j : Fin lateNodes.length, (lateNodes.get j).isActive = true ∧
          j ≠ p.node ∧ a.admits j = true ∧ a.startOn j < p.start := by
  refine ⟨rfl, by simp [lateNodes], ?_⟩
  have hlate : ((history Heuristic.longestJobFirst.policy lateNodes latePods).any fun a =>
      match a.placement? with
      | none => false
      | some p => decide (∃ j : Fin lateNodes.length, (lateNodes.get j).isActive = true ∧ j ≠ p.node ∧
          a.admits j = true ∧ a.startOn j < p.start)) = true := by decide +kernel
  obtain ⟨a, ha, hplaced⟩ := List.any_eq_true.1 hlate
  refine ⟨a, ha, ?_⟩
  cases hp : a.placement? with
  | none =>
    rw [hp] at hplaced
    cases hplaced
  | some p =>
    rw [hp] at hplaced
    exact ⟨p, rfl, of_decide_eq_true hplaced⟩

end Simulation

end PodPlacement
