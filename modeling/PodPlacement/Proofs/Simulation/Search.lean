import Mathlib.Data.List.TakeWhile
import PodPlacement.Proofs.Placement.Choice
import PodPlacement.Proofs.Simulation.EarliestStart

/-! # The search as a scan

A pod that is placed ahead is searched a node by taking nodes out of the queue, and the ledgers of these
nodes change meanwhile. The search comes to the same as going through the active nodes in the order their
ledgers stood in before it, up to the first one that admits the pod: only a node that is out of the queue
changes, so the order of the others stays what it was.

* `Attempt.Sound.find?_eq_some`, `Attempt.Sound.find?_eq_none` — which node is found, if one is.
* `Attempt.Sound.scans` — all that a search does, in terms of the scan.
* `runPolicy_scans` — every search of a simulation is such a scan. -/

namespace PodPlacement

namespace Cluster

variable {n : Nat} {c c' : Cluster n} {active : List (Fin n)}

/-- With a queue, nodes are looked for in its order. -/
theorem trialOrder_eq_searchOrder (hahead : c.queue?.isSome = true) (choice : NodeChoice)
    (active : List (Fin n)) (pod : Pod) (clock : Seconds) :
    c.trialOrder choice active pod clock = NodeQueue.searchOrder c.nodes := by
  obtain ⟨nodes, queue?⟩ := c
  cases queue? with
  | none => cases hahead
  | some queue => rfl

/-- With a queue, placing a pod is a search. -/
theorem placeAhead_of_place {choice : NodeChoice} (hahead : c.queue?.isSome = true) {pod : Pod}
    {clock : Seconds} {placement? : Option (Placement n)}
    (hplace : c.place choice active pod clock = .ok (c', placement?)) : ∃ queue queue',
      c.queue? = some queue ∧ c'.queue? = some queue' ∧
        placeAhead c.nodes queue pod clock = .ok (c'.nodes, queue', placement?) := by
  obtain ⟨nodes, queue?⟩ := c
  cases queue? with
  | none => cases hahead
  | some queue =>
    rw [place] at hplace
    dsimp only at hplace
    cases hsearch : placeAhead nodes queue pod clock with
    | error breach =>
      rw [hsearch] at hplace
      cases hplace
    | ok r =>
      rw [hsearch] at hplace
      cases hplace
      exact ⟨queue, _, rfl, rfl, hsearch⟩

end Cluster

namespace Simulation

/-! ### Scans -/

namespace Attempt

variable {n : Nat}

/-- The active nodes as their ledgers order them before the try: by the instant they are free, then by the
CPU they have available, the most first, then by position. -/
def scanOrder (active : List (Fin n)) (a : Attempt n) : List (Fin n) :=
  sortBy (NodeQueue.searchOrder a.before.nodes) active

/-- The nodes that come before the first one that admits the pod at the start it offers. -/
def asked (active : List (Fin n)) (a : Attempt n) : List (Fin n) :=
  (a.scanOrder active).takeWhile fun j => !a.admits j

/-- A try is a search of the queue. Afterwards the queue holds each active node once and is in the order of
the ledgers as they are then. -/
def Searched (active : List (Fin n)) (a : Attempt n) : Prop :=
  ∃ queue queue', a.before.queue? = some queue ∧ a.after.queue? = some queue' ∧
    Cluster.placeAhead a.before.nodes queue a.pod a.clock =
      .ok (a.after.nodes, queue', a.placement?) ∧
    queue'.toList.Nodup ∧ (∀ j, j ∈ queue'.toList ↔ j ∈ active) ∧
    Heap.Valid (NodeQueue.searchOrder a.after.nodes) queue'

/-- A try is a scan of the active nodes in their order before the try. -/
structure Scans (active : List (Fin n)) (a : Attempt n) : Prop where
  /-- The pod goes to the first node that admits it at the start it offers, if there is one. -/
  found : a.placement?.map Placement.node = (a.scanOrder active).find? a.admits
  /-- It starts at that offer, and the ledger of the node has started it then. -/
  started : ∀ p, a.placement? = some p → p.start = a.startOn p.node ∧
    p.finish = p.start + a.pod.duration ∧
      a.after.nodes[p.node] = a.before.nodes[p.node].host a.pod p.start
  /-- The nodes before it are advanced to the starts they offer, and all others are as they were. -/
  others : ∀ j, a.placement?.map Placement.node ≠ some j → a.after.nodes[j] =
    if j ∈ a.asked active then a.before.nodes[j].advance (a.startOn j) else a.before.nodes[j]
  /-- That comes of a search, which keeps the queue sound. -/
  searched : a.Searched active

/-- The scan goes through the active nodes. -/
theorem mem_scanOrder {active : List (Fin n)} {a : Attempt n} {j : Fin n} :
    j ∈ a.scanOrder active ↔ j ∈ active := (sortBy_perm _ active).mem_iff

/-- Only active nodes are asked. -/
theorem of_mem_asked {active : List (Fin n)} {a : Attempt n} {j : Fin n} (hj : j ∈ a.asked active) :
    j ∈ active := mem_scanOrder.1 ((List.takeWhile_sublist _).subset hj)

namespace Sound

variable {policy : Policy} {active : List (Fin n)} {a : Attempt n}

/-- A try to place a pod ahead is a search. -/
theorem searched (h : a.Sound policy active) (hactive : active.Nodup)
    (hahead : policy.anticipates = true) : a.Searched active := by
  have hqueue : a.before.queue?.isSome = true := by rw [h.mode, hahead]
  obtain ⟨queue, queue', hbefore, hafter, hsearch⟩ := Cluster.placeAhead_of_place hqueue h.placed
  obtain ⟨_, _, heq, -, hqueues, -⟩ :=
    Cluster.place_spec policy.nodeChoice hactive h.queues a.pod a.clock
  rw [h.placed] at heq
  cases heq
  obtain ⟨hperm, hvalid⟩ := hqueues queue' hafter
  exact ⟨queue, queue', hbefore, hafter, hsearch, hperm.nodup_iff.2 hactive, fun j => hperm.mem_iff,
    hvalid⟩

/-- A try that places no pod ahead has asked all active nodes, and none admits the pod. -/
theorem find?_eq_none (h : a.Sound policy active) (hahead : policy.anticipates = true)
    (hnone : a.placement? = none) :
    (a.scanOrder active).find? a.admits = none ∧ a.asked active = a.scanOrder active := by
  have hdeclined : ∀ j ∈ a.scanOrder active, a.admits j = false := by
    intro j hj
    rw [← (h.trial.declined hnone j (mem_scanOrder.1 hj)).1, h.offer_eq_startOn hahead]
    rfl
  refine ⟨List.find?_eq_none.2 fun j hj => by simp [hdeclined j hj], ?_⟩
  exact List.takeWhile_eq_self_iff.2 fun j hj => by simp [hdeclined j hj]

/-- A pod that is placed ahead goes to the first node that admits it, and the nodes asked before are those
that do not come after it. -/
theorem find?_eq_some (h : a.Sound policy active) (hactive : active.Nodup)
    (hahead : policy.anticipates = true) {p : Placement n} (hp : a.placement? = some p) :
    (a.scanOrder active).find? a.admits = some p.node ∧ ∀ j ∈ active, j ≠ p.node →
      (j ∈ a.asked active ↔ NodeQueue.searchOrder a.before.nodes p.node j ≠ .lt) := by
  obtain ⟨hpmem, hstart, -, hadmits, -⟩ := h.trial.hosted p hp
  have hplace := h.placed
  rw [hp] at hplace
  have hqueue : a.before.queue?.isSome = true := by rw [h.mode, hahead]
  have hsorted : (a.scanOrder active).Pairwise fun i j =>
      (NodeQueue.searchOrder a.before.nodes i j).isLE := pairwise_sortBy active
  have hpadmits : a.admits p.node = true := by
    rw [admits, startOn, ← h.offer_eq_startOn hahead, ← hstart]
    exact hadmits
  obtain ⟨hfound, hbefore⟩ := find?_eq_some_of_isLE hsorted
    (fun _ _ _ _ hij => NodeQueue.eq_of_searchOrder hij) (mem_scanOrder.2 hpmem) hpadmits
    fun j hj => Cluster.place_first hactive h.queues hqueue hplace (mem_scanOrder.1 hj)
  exact ⟨hfound, fun j hj => hbefore j (mem_scanOrder.2 hj)⟩

/-- A try to place a pod ahead advances the nodes it has asked, and no others. -/
theorem others (h : a.Sound policy active) (hasc : active.Pairwise (· < ·))
    (hahead : policy.anticipates = true) {j : Fin n} (hj : a.placement?.map Placement.node ≠ some j) :
    a.after.nodes[j] =
      if j ∈ a.asked active then a.before.nodes[j].advance (a.startOn j) else a.before.nodes[j] := by
  by_cases hactive : j ∈ active
  · have hoffer : a.before.offer a.pod a.clock j = a.startOn j := h.offer_eq_startOn hahead j
    cases hp : a.placement? with
    | none =>
      have hasked : j ∈ a.asked active := by
        rw [(h.find?_eq_none hahead hp).2]
        exact mem_scanOrder.2 hactive
      rw [(h.trial.declined hp j hactive).2, hoffer, if_pos hasked]
    | some p =>
      have hjp : j ≠ p.node := by
        rintro rfl
        exact hj (by rw [hp]; rfl)
      have hqueue : a.before.queue?.isSome = true := by rw [h.mode, hahead]
      have hasked := (h.find?_eq_some (hasc.imp ne_of_lt) hahead hp).2 j hactive hjp
      have hplace := h.placed
      rw [hp] at hplace
      rw [(Cluster.place_decision hasc h.queues hplace).others j hactive hjp,
        Cluster.trialOrder_eq_searchOrder hqueue, hoffer]
      by_cases hlt : NodeQueue.searchOrder a.before.nodes p.node j = .lt
      · rw [if_pos ⟨hqueue, hlt⟩, if_neg fun hmem => hasked.1 hmem hlt]
      · rw [if_neg fun hboth => hlt hboth.2, if_pos (hasked.2 hlt)]
  · rw [h.trial.aside j hactive, if_neg fun hmem => hactive (of_mem_asked hmem)]

/-- A try to place a pod ahead is a scan. -/
theorem scans (h : a.Sound policy active) (hasc : active.Pairwise (· < ·))
    (hahead : policy.anticipates = true) : a.Scans active := by
  have hactive : active.Nodup := hasc.imp ne_of_lt
  refine ⟨?_, ?_, fun j hj => h.others hasc hahead hj, h.searched hactive hahead⟩
  · cases hp : a.placement? with
    | none => rw [(h.find?_eq_none hahead hp).1]; rfl
    | some p => rw [(h.find?_eq_some hactive hahead hp).1]; rfl
  · intro p hp
    obtain ⟨-, hstart, hfinish, -, hhosts⟩ := h.trial.hosted p hp
    exact ⟨hstart.trans (h.offer_eq_startOn hahead p.node), hfinish, hhosts⟩

end Sound

end Attempt

/-! ### Simulations -/

/-- A policy that anticipates books the pods that are placed in its tries, and each of its tries is a scan
of the active nodes. -/
theorem runPolicy_scans (policy : Policy) (hahead : policy.anticipates = true) (nodes : List Ledger)
    (pods : List Pod) : ∃ outcome, runPolicy policy nodes pods = .ok outcome ∧
      outcome.schedule.records =
        (bookings (history policy nodes pods)).map (Booking.record (positions nodes)) ∧
      ∀ a ∈ history policy nodes pods, a.Scans (activeNodes (positions nodes)) := by
  obtain ⟨s, status, hends, hruns⟩ := ends_spec policy nodes pods
  refine ⟨_, hends.runPolicy_eq, hruns.records_eq, ?_⟩
  intro a ha
  exact (hruns.sound a ha).1.scans (pairwise_activeNodes _) hahead

/-- The tries on the three nodes on which a start is held back are scans. -/
theorem runPolicy_scans_lateNodes : ∃ outcome,
    runPolicy Heuristic.longestJobFirst.policy lateNodes latePods = .ok outcome ∧
      outcome.schedule.records =
        (bookings (history Heuristic.longestJobFirst.policy lateNodes latePods)).map
          (Booking.record (positions lateNodes)) ∧
      ∀ a ∈ history Heuristic.longestJobFirst.policy lateNodes latePods,
        a.Scans (activeNodes (positions lateNodes)) :=
  runPolicy_scans _ rfl lateNodes latePods

-- The third pod does not fit on the two nodes that are free earlier.
example : (history Heuristic.longestJobFirst.policy lateNodes latePods).map (fun a =>
    ((a.asked (activeNodes (positions lateNodes))).map Fin.val, a.placement?.map (·.node.val))) =
      [([], some 2), ([], some 0), ([1, 0], some 2), ([], some 0)] := by decide +kernel

end Simulation

end PodPlacement
