import PodPlacement.Placement
import PodPlacement.Proofs.Ledger.Advance
import PodPlacement.Proofs.NodeQueue

/-! # Trying one pod

What a try to place a pod does to the nodes, for both ways of placing. Each active node offers the pod
a start; the pod goes to a node that admits it at that start, or every active node was asked and
declined.

* `Trial` — the effect of one try, as a relation between the nodes before and after.
* `placeNow_spec`, `search_spec`, `place_spec` — a try always comes to a result, and its effect is a
  `Trial`. In particular a ledger never refuses a pod it admitted.
* `search_first` — a search takes the node that comes first in the order of the queue among those that
  admit the pod, asks the nodes before it and no others, and keeps the queue in order although ledgers
  change. -/

namespace PodPlacement

/-! ### Admission and hosting -/

namespace Ledger

/-- The ledger that was advanced to `t` and has started the pod then. -/
def host (l : Ledger) (pod : Pod) (t : Seconds) : Ledger :=
  (l.advance t).start ⟨t + pod.duration, pod.id, pod.requests⟩

/-- Hosting a pod keeps the name. -/
@[simp] theorem name_host (l : Ledger) (pod : Pod) (t : Seconds) : (l.host pod t).name = l.name := rfl

/-- Hosting a pod keeps the capacity. -/
@[simp] theorem capacity_host (l : Ledger) (pod : Pod) (t : Seconds) :
    (l.host pod t).capacity = l.capacity := rfl

/-- Hosting a pod moves the instant the ledger has reached forward. -/
@[simp] theorem advancedTo_host (l : Ledger) (pod : Pod) (t : Seconds) :
    (l.host pod t).advancedTo = l.advancedTo.maxNum t := rfl

/-- Hosting a pod adds it to the ones that still run then. -/
theorem pods_host_perm (l : Ledger) (pod : Pod) (t : Seconds) :
    (l.host pod t).pods.Perm (⟨t + pod.duration, pod.id, pod.requests⟩ :: (l.advance t).pods) :=
  pods_start_perm (l.advance t) _

/-- A request is admitted exactly if nothing is short at that instant. -/
theorem canAdmit_iff {l : Ledger} {request : Resources} {t : Seconds} :
    l.canAdmit request t = true ↔ (l.advance t).refusal? request = none := Option.isNone_iff_eq_none

/-- A request is declined exactly if something is short at that instant. -/
theorem canAdmit_eq_false {l : Ledger} {request : Resources} {t : Seconds} :
    l.canAdmit request t = false ↔ (l.advance t).refusal? request ≠ none := by
  rw [← Bool.not_eq_true, canAdmit_iff]

/-- An admitted pod is started. -/
theorem assign_of_canAdmit {l : Ledger} {pod : Pod} {t : Seconds} (h : l.canAdmit pod.requests t = true) :
    l.assign pod.id pod.duration pod.requests t = (l.host pod t, .ok (t + pod.duration)) := by
  rw [assign, canAdmit_iff.1 h]
  rfl

/-- A ledger that was advanced to an instant admits what it admits at that instant. -/
@[simp] theorem canAdmit_advance_self (l : Ledger) (request : Resources) (t : Seconds) :
    (l.advance t).canAdmit request t = l.canAdmit request t := by
  rw [canAdmit, canAdmit, advance_advance_self]

/-- A ledger that was advanced to an instant hosts a pod from that instant alike. -/
@[simp] theorem host_advance_self (l : Ledger) (pod : Pod) (t : Seconds) :
    (l.advance t).host pod t = l.host pod t := by
  rw [host, host, advance_advance_self]

end Ledger

namespace Cluster

variable {n : Nat}

/-! ### The effect of a try -/

/-- What a try to place a pod does to the nodes, where `offer` is the start each node offers it. -/
structure Trial (active : List (Fin n)) (pod : Pod) (offer : Fin n → Seconds)
    (nodes nodes' : Nodes n) (placement? : Option (Placement n)) : Prop where
  /-- Nodes that take no part stay as they are. -/
  aside : ∀ j, j ∉ active → nodes'[j] = nodes[j]
  /-- A pod that is not placed was declined by every active node. -/
  declined : placement? = none → ∀ j ∈ active,
    nodes[j].canAdmit pod.requests (offer j) = false ∧ nodes'[j] = nodes[j].advance (offer j)
  /-- A pod that is placed runs on an active node that admits it at the start it offers. -/
  hosted : ∀ p, placement? = some p → p.node ∈ active ∧ p.start = offer p.node ∧
    p.finish = p.start + pod.duration ∧ nodes[p.node].canAdmit pod.requests p.start = true ∧
    nodes'[p.node] = nodes[p.node].host pod p.start
  /-- The other active nodes were asked or not. -/
  passed : ∀ p, placement? = some p → ∀ j ∈ active, j ≠ p.node →
    nodes'[j] = nodes[j] ∨ nodes'[j] = nodes[j].advance (offer j)

namespace Trial

variable {active : List (Fin n)} {pod : Pod} {offer : Fin n → Seconds} {nodes nodes' : Nodes n}
  {placement? : Option (Placement n)}

/-- What becomes of one ledger: without the pod it stays or is advanced to the start it offers, and with
the pod it hosts it from that start. -/
theorem ledger (h : Trial active pod offer nodes nodes' placement?) (j : Fin n) :
    ((∀ p, placement? = some p → p.node ≠ j) ∧
        (nodes'[j] = nodes[j] ∨ nodes'[j] = nodes[j].advance (offer j))) ∨
      ∃ p, placement? = some p ∧ p.node = j ∧ p.start = offer j ∧
        nodes[j].canAdmit pod.requests (offer j) = true ∧ nodes'[j] = nodes[j].host pod (offer j) := by
  by_cases hj : j ∈ active
  · cases hp : placement? with
    | none => exact .inl ⟨(fun p hsome => by cases hsome), .inr (h.declined hp j hj).2⟩
    | some p =>
      by_cases hjp : j = p.node
      · obtain ⟨-, hstart, -, hadmits, hhost⟩ := h.hosted p hp
        subst hjp
        rw [hstart] at hadmits hhost
        exact .inr ⟨p, rfl, rfl, hstart, hadmits, hhost⟩
      · left
        refine ⟨?_, h.passed p hp j hj hjp⟩
        rintro q hq rfl
        cases hq
        exact hjp rfl
  · left
    refine ⟨?_, .inl (h.aside j hj)⟩
    rintro p hp rfl
    exact hj (h.hosted p hp).1

/-- A try renames no node. -/
theorem name_eq (h : Trial active pod offer nodes nodes' placement?) (j : Fin n) :
    nodes'[j].name = nodes[j].name := by
  rcases h.ledger j with ⟨-, hj | hj⟩ | ⟨p, -, -, -, -, hj⟩ <;> rw [hj] <;> rfl

/-- A try changes no capacity. -/
theorem capacity_eq (h : Trial active pod offer nodes nodes' placement?) (j : Fin n) :
    nodes'[j].capacity = nodes[j].capacity := by
  rcases h.ledger j with ⟨-, hj | hj⟩ | ⟨p, -, -, -, -, hj⟩ <;> rw [hj] <;> rfl

/-- The order in which the active nodes are listed does not matter. -/
theorem congr_active {active' : List (Fin n)} (h : Trial active pod offer nodes nodes' placement?)
    (hmem : ∀ j, j ∈ active ↔ j ∈ active') : Trial active' pod offer nodes nodes' placement? := by
  refine ⟨?_, ?_, ?_, ?_⟩
  · intro j hj
    exact h.aside j (by rwa [hmem])
  · intro hnone j hj
    exact h.declined hnone j ((hmem j).2 hj)
  · intro p hp
    rw [← hmem]
    exact h.hosted p hp
  · intro p hp j hj
    exact h.passed p hp j ((hmem j).2 hj)

/-- Without active nodes nothing happens. -/
theorem nil : Trial [] pod offer nodes nodes none := by
  refine ⟨fun _ _ => rfl, ?_, ?_, ?_⟩
  · intro _ j hj
    cases hj
  · intro p hp
    cases hp
  · intro p hp
    cases hp

variable {i : Fin n} {is : List (Fin n)}

/-- The node that is asked first takes the pod, and no other node is asked. -/
theorem hosts (hadmits : nodes[i].canAdmit pod.requests (offer i) = true) :
    Trial (i :: is) pod offer nodes (nodes.set i (nodes[i].host pod (offer i)) i.isLt)
      (some ⟨i, offer i, offer i + pod.duration⟩) := by
  refine ⟨?_, ?_, ?_, ?_⟩
  · intro j hj
    exact Nodes.getElem_set_ne nodes _ (List.ne_of_not_mem_cons hj)
  · intro hnone
    cases hnone
  · intro p hp
    cases hp
    exact ⟨List.mem_cons_self, rfl, rfl, hadmits, Nodes.getElem_set_self nodes i _⟩
  · intro p hp j _ hji
    cases hp
    exact .inl (Nodes.getElem_set_ne nodes _ hji)

/-- The node that is asked first declines and is advanced, and the try goes on with the others. -/
theorem declines {offer' : Fin n → Seconds} (hi : i ∉ is)
    (hdeclined : nodes[i].canAdmit pod.requests (offer i) = false)
    (h : Trial is pod offer' (nodes.set i (nodes[i].advance (offer i)) i.isLt) nodes' placement?)
    (hoffer : ∀ j ∈ is, offer' j = offer j) : Trial (i :: is) pod offer nodes nodes' placement? := by
  have hkeep : ∀ j ∈ is, (nodes.set i (nodes[i].advance (offer i)) i.isLt)[j] = nodes[j] :=
    fun j hj => Nodes.getElem_set_of_mem nodes _ hi hj
  have hself : nodes'[i] = nodes[i].advance (offer i) := by
    rw [h.aside i hi, Nodes.getElem_set_self]
  refine ⟨?_, ?_, ?_, ?_⟩
  · intro j hj
    rw [List.mem_cons, not_or] at hj
    rw [h.aside j hj.2, Nodes.getElem_set_ne nodes _ hj.1]
  · intro hnone j hj
    rcases List.mem_cons.1 hj with rfl | hj
    · exact ⟨hdeclined, hself⟩
    · have hj' := h.declined hnone j hj
      rwa [hkeep j hj, hoffer j hj] at hj'
  · intro p hp
    obtain ⟨hnode, hstart, hfinish, hadmits, hhost⟩ := h.hosted p hp
    rw [hoffer p.node hnode] at hstart
    rw [hkeep p.node hnode] at hadmits hhost
    exact ⟨List.mem_cons_of_mem i hnode, hstart, hfinish, hadmits, hhost⟩
  · intro p hp j hj hne
    rcases List.mem_cons.1 hj with rfl | hj
    · exact .inr hself
    · have hj' := h.passed p hp j hj hne
      rwa [hkeep j hj, hoffer j hj] at hj'

end Trial

/-- Committing an admitted pod starts it. -/
theorem commit_of_canAdmit {nodes : Nodes n} {i : Fin n} {pod : Pod} {t : Seconds}
    (h : nodes[i].canAdmit pod.requests t = true) :
    commit nodes i pod t = .ok (nodes.set i (nodes[i].host pod t) i.isLt, ⟨i, t, t + pod.duration⟩) := by
  rw [commit, Ledger.assign_of_canAdmit h]

/-! ### Placing at the clock -/

/-- Advancing the ledgers of some nodes advances exactly these. -/
theorem getElem_advanceAll (candidates : List (Fin n)) (nodes : Nodes n) (clock : Seconds) (j : Fin n) :
    (NodeChoice.advanceAll nodes candidates clock)[j] =
      if j ∈ candidates then nodes[j].advance clock else nodes[j] := by
  induction candidates generalizing nodes with
  | nil => simp [NodeChoice.advanceAll]
  | cons i is ih =>
    have hstep : NodeChoice.advanceAll nodes (i :: is) clock =
        NodeChoice.advanceAll (nodes.set i (nodes[i].advance clock) i.isLt) is clock := rfl
    rw [hstep, ih]
    by_cases hji : j = i
    · subst hji
      rw [Nodes.getElem_set_self, Ledger.advance_advance_self, ite_self, if_pos List.mem_cons_self]
    · rw [Nodes.getElem_set_ne nodes _ hji]
      simp only [List.mem_cons, hji, false_or]

/-- The node that orders first is one of the nodes. -/
theorem mem_of_leastBy? {cmp : Fin n → Fin n → Ordering} {is : List (Fin n)} {i : Fin n}
    (h : NodeChoice.leastBy? cmp is = some i) : i ∈ is := by
  cases is with
  | nil => simp [NodeChoice.leastBy?] at h
  | cons a as =>
    rw [NodeChoice.leastBy?, Option.some.injEq] at h
    rw [← h]
    clear h
    induction as generalizing a with
    | nil => exact List.mem_singleton.2 rfl
    | cons b bs ih =>
      rw [List.foldl_cons]
      split
      · exact List.mem_cons_of_mem a (ih b)
      · rcases List.mem_cons.1 (ih a) with h | h
        · rw [h]; exact List.mem_cons_self
        · exact List.mem_cons_of_mem a (List.mem_cons_of_mem b h)

/-- Only of no nodes there is none that orders first. -/
theorem eq_nil_of_leastBy? {cmp : Fin n → Fin n → Ordering} {is : List (Fin n)}
    (h : NodeChoice.leastBy? cmp is = none) : is = [] := by
  cases is with
  | nil => rfl
  | cons a as => simp [NodeChoice.leastBy?] at h

/-- Placing at the clock is a try in which every node offers the clock. -/
theorem placeNow_spec (choice : NodeChoice) (active : List (Fin n)) (nodes : Nodes n) (pod : Pod)
    (clock : Seconds) : ∃ nodes' placement?,
      placeNow choice active nodes pod clock = .ok (nodes', placement?) ∧
        Trial active pod (fun _ => clock) nodes nodes' placement? := by
  have hget := getElem_advanceAll active nodes clock
  have hadvanced : ∀ j ∈ active, (NodeChoice.advanceAll nodes active clock)[j] = nodes[j].advance clock :=
    fun j hj => by rw [hget, if_pos hj]
  have haside : ∀ j, j ∉ active → (NodeChoice.advanceAll nodes active clock)[j] = nodes[j] :=
    fun j hj => by rw [hget, if_neg hj]
  rw [placeNow, NodeChoice.select]
  dsimp only
  generalize hfeas : active.filter _ = feasible
  cases hleast : NodeChoice.leastBy? _ feasible with
  | none =>
    refine ⟨_, _, rfl, ⟨haside, ?_, ?_, ?_⟩⟩
    · intro _ j hj
      refine ⟨?_, hadvanced j hj⟩
      have hempty := eq_nil_of_leastBy? hleast
      rw [← hfeas, List.filter_eq_nil_iff] at hempty
      have hj' := hempty j hj
      rw [hadvanced j hj] at hj'
      exact Bool.eq_false_iff.2 hj'
    · intro p hp; cases hp
    · intro p hp; cases hp
  | some i =>
    have hi : i ∈ feasible := mem_of_leastBy? hleast
    rw [← hfeas, List.mem_filter] at hi
    obtain ⟨hia, hadmits⟩ := hi
    rw [hadvanced i hia] at hadmits
    have hadmits' : nodes[i].canAdmit pod.requests clock = true := hadmits
    have hcommit : commit (NodeChoice.advanceAll nodes active clock) i pod clock = .ok _ :=
      commit_of_canAdmit (by rw [hadvanced i hia, Ledger.canAdmit_advance_self]; exact hadmits')
    refine ⟨_, _, by dsimp only; rw [hcommit]; rfl, ⟨?_, ?_, ?_, ?_⟩⟩
    · intro j hj
      have hji : j ≠ i := by rintro rfl; exact hj hia
      rw [Nodes.getElem_set_ne _ _ hji, haside j hj]
    · intro h; cases h
    · intro p hp
      cases hp
      refine ⟨hia, rfl, rfl, hadmits', ?_⟩
      rw [Nodes.getElem_set_self, hadvanced i hia, Ledger.host_advance_self]
    · intro p hp j hj hji
      cases hp
      right
      rw [Nodes.getElem_set_ne _ _ hji, hadvanced j hj]

/-! ### Placing ahead -/

section Start

variable {l : Ledger} {pod : Pod} {clock : Seconds}

/-- What is not after the later one of the clock and the instant the node is free is not after the start. -/
theorem le_startOn {t : Seconds} (h : t ≤ l.earliestFree.maxNum clock) : t ≤ startOn l pod clock := by
  have hsubmit := Binary64.le_maxNum_left (Binary64.isNaN_of_le_right h) pod.submit
  have hadvanced := Binary64.le_maxNum_left (Binary64.isNaN_of_le_right hsubmit) l.advancedTo
  exact Binary64.le_trans h (Binary64.le_trans hsubmit hadvanced)

/-- The start a node offers is not before the node is free. -/
theorem earliestFree_le_startOn (hfree : l.earliestFree.isNaN = false) :
    l.earliestFree ≤ startOn l pod clock := le_startOn (Binary64.le_maxNum_left hfree clock)

/-- The start a node offers is not before the clock. -/
theorem clock_le_startOn (hnum : clock.isNaN = false) : clock ≤ startOn l pod clock :=
  le_startOn (Binary64.le_maxNum_right l.earliestFree hnum)

/-- The start a node offers is not before the instant the ledger has reached. -/
theorem advancedTo_le_startOn (hnum : l.advancedTo.isNaN = false) : l.advancedTo ≤ startOn l pod clock :=
  Binary64.le_maxNum_right _ hnum

/-- The start a node offers is the least instant that is not before the clock, the submission, the
instant the ledger has reached, and the instant the node is free, unless that is NaN. -/
theorem startOn_le {t : Seconds} (hfree : l.earliestFree.isNaN = true ∨ l.earliestFree ≤ t)
    (hclock : clock ≤ t) (hsubmit : pod.submit ≤ t) (hadvanced : l.advancedTo ≤ t) :
    startOn l pod clock ≤ t := by
  have hfirst : l.earliestFree.maxNum clock ≤ t := by
    rcases hfree with hnan | hfree
    · cases hl : l.earliestFree with
      | nan => rwa [Binary64.maxNum_nan_left]
      | signed s m => rw [hl] at hnan; cases hnan
    · exact Binary64.maxNum_le hfree hclock
  exact Binary64.maxNum_le (Binary64.maxNum_le hfirst hsubmit) hadvanced

end Start

section Search

variable (pod : Pod) (clock : Seconds) {nodes : Nodes n} {queue rest : NodeQueue n} {i : Fin n}

/-- With an empty queue the search ends, and the nodes set aside are queued again. -/
theorem search_of_pop_eq_none (setAside : List (Fin n))
    (hp : queue.pop (NodeQueue.searchOrder nodes) = none) :
    search pod clock nodes queue setAside =
      .ok (nodes, queue.pushAll (NodeQueue.searchOrder nodes) setAside, none) := by
  rw [search]
  split
  · rfl
  · rename_i h; rw [hp] at h; cases h

/-- A node that admits the pod at the start it offers gets it. -/
theorem search_of_canAdmit (setAside : List (Fin n))
    (hp : queue.pop (NodeQueue.searchOrder nodes) = some (i, rest))
    (h : nodes[i].canAdmit pod.requests (startOn nodes[i] pod clock) = true) :
    search pod clock nodes queue setAside =
      .ok (nodes.set i (nodes[i].host pod (startOn nodes[i] pod clock)) i.isLt,
        rest.pushAll (NodeQueue.searchOrder
          (nodes.set i (nodes[i].host pod (startOn nodes[i] pod clock)) i.isLt)) (i :: setAside),
        some ⟨i, startOn nodes[i] pod clock, startOn nodes[i] pod clock + pod.duration⟩) := by
  rw [search]
  split
  · rename_i h'; rw [hp] at h'; cases h'
  · rename_i i' rest' h'
    rw [hp] at h'
    cases h'
    have hself := Nodes.getElem_set_self nodes i (nodes[i].advance (startOn nodes[i] pod clock))
    have hcommit : commit (nodes.set i (nodes[i].advance (startOn nodes[i] pod clock)) i.isLt) i pod
        (startOn nodes[i] pod clock) = .ok _ :=
      commit_of_canAdmit (by rw [hself, Ledger.canAdmit_advance_self]; exact h)
    have hfits : ((nodes.set i (nodes[i].advance (startOn nodes[i] pod clock)) i.isLt)[i].refusal?
        pod.requests).isNone = true := by rw [hself]; exact h
    rw [if_pos hfits, hcommit, hself, Ledger.host_advance_self, Vector.set_set]
    rfl

/-- A node that declines the pod is set aside, and the search goes on with the rest. -/
theorem search_of_not_canAdmit (setAside : List (Fin n))
    (hp : queue.pop (NodeQueue.searchOrder nodes) = some (i, rest))
    (h : nodes[i].canAdmit pod.requests (startOn nodes[i] pod clock) = false) :
    search pod clock nodes queue setAside =
      search pod clock (nodes.set i (nodes[i].advance (startOn nodes[i] pod clock)) i.isLt) rest
        (setAside ++ [i]) := by
  rw [search]
  split
  · rename_i h'; rw [hp] at h'; cases h'
  · rename_i i' rest' h'
    rw [hp] at h'
    cases h'
    have hself := Nodes.getElem_set_self nodes i (nodes[i].advance (startOn nodes[i] pod clock))
    have hfits : ¬ ((nodes.set i (nodes[i].advance (startOn nodes[i] pod clock)) i.isLt)[i].refusal?
        pod.requests).isNone = true := by
      rw [hself, Bool.not_eq_true]; exact h
    rw [if_neg hfits]

end Search

/-- A search is a try in which every queued node offers the start it could give the pod, and it loses
no node. -/
theorem search_spec (pod : Pod) (clock : Seconds) (nodes : Nodes n) (queue : NodeQueue n)
    (setAside : List (Fin n)) (hnodup : queue.toList.Nodup) : ∃ nodes' queue' placement?,
      search pod clock nodes queue setAside = .ok (nodes', queue', placement?) ∧
        queue'.toList.Perm (queue.toList ++ setAside) ∧
        Trial queue.toList pod (fun j => startOn nodes[j] pod clock) nodes nodes' placement? := by
  induction hsize : queue.size using Nat.strongRecOn generalizing nodes queue setAside with
  | _ k ih =>
    cases hp : queue.pop (NodeQueue.searchOrder nodes) with
    | none =>
      refine ⟨_, _, _, search_of_pop_eq_none pod clock setAside hp, ?_, ?_⟩
      · exact (Heap.perm_pushAll queue setAside).trans List.perm_append_comm
      · rw [NodeQueue.toList_eq_nil_of_pop hp]
        exact .nil
    | some r =>
      obtain ⟨i, rest⟩ := r
      have hperm := NodeQueue.perm_pop hp
      obtain ⟨hirest, hrest⟩ := List.nodup_cons.1 (hperm.nodup_iff.2 hnodup)
      have hsmaller := NodeQueue.size_of_pop _ hp
      cases hadmits : nodes[i].canAdmit pod.requests (startOn nodes[i] pod clock) with
      | true =>
        refine ⟨_, _, _, search_of_canAdmit pod clock setAside hp hadmits, ?_, ?_⟩
        · refine (Heap.perm_pushAll rest (i :: setAside)).trans ?_
          rw [List.cons_append]
          exact (List.perm_append_comm.cons i).trans (hperm.append_right setAside)
        · have htrial : Trial (i :: rest.toList) pod (fun j => startOn nodes[j] pod clock) nodes _ _ :=
            .hosts hadmits
          exact htrial.congr_active fun j => hperm.mem_iff
      | false =>
        obtain ⟨nodes', queue', placement?, heq, hperm', htrial⟩ :=
          ih rest.size (by omega) (nodes.set i (nodes[i].advance (startOn nodes[i] pod clock)) i.isLt) rest
            (setAside ++ [i]) hrest rfl
        refine ⟨nodes', queue', placement?, ?_, ?_, ?_⟩
        · rw [search_of_not_canAdmit pod clock setAside hp hadmits, heq]
        · refine hperm'.trans ?_
          rw [← List.append_assoc]
          refine (List.perm_append_singleton i _).trans ?_
          rw [← List.cons_append]
          exact hperm.append_right setAside
        · -- The nodes left in the queue are not the one that changed, so they offer the same starts.
          have hoffer : ∀ j ∈ rest.toList,
              startOn (nodes.set i (nodes[i].advance (startOn nodes[i] pod clock)) i.isLt)[j] pod clock =
                startOn nodes[j] pod clock := by
            intro j hj
            rw [Nodes.getElem_set_of_mem nodes _ hirest hj]
          have hall : Trial (i :: rest.toList) pod (fun j => startOn nodes[j] pod clock) nodes _ _ :=
            .declines hirest hadmits htrial hoffer
          exact hall.congr_active fun j => hperm.mem_iff

/-- A search takes a node that comes first among the queued ones that admit the pod at the start they
offer. The nodes before it were asked, and so they are advanced; those after it were not. A queue that was
in order before is in order afterwards, with respect to the new ledgers. -/
theorem search_first {pod : Pod} {clock : Seconds} {nodes nodes' : Nodes n} {queue queue' : NodeQueue n}
    {setAside : List (Fin n)} {placement? : Option (Placement n)} (hnodup : queue.toList.Nodup)
    (hvalid : Heap.Valid (NodeQueue.searchOrder nodes) queue)
    (hsearch : search pod clock nodes queue setAside = .ok (nodes', queue', placement?)) :
    Heap.Valid (NodeQueue.searchOrder nodes') queue' ∧ ∀ p, placement? = some p → ∀ j ∈ queue.toList,
      (nodes[j].canAdmit pod.requests (startOn nodes[j] pod clock) = true →
        (NodeQueue.searchOrder nodes p.node j).isLE) ∧
      (j ≠ p.node → nodes'[j] = if NodeQueue.searchOrder nodes p.node j = .lt then nodes[j]
        else nodes[j].advance (startOn nodes[j] pod clock)) := by
  induction hsize : queue.size using Nat.strongRecOn generalizing nodes queue setAside with
  | _ k ih =>
    cases hp : queue.pop (NodeQueue.searchOrder nodes) with
    | none =>
      rw [search_of_pop_eq_none pod clock setAside hp] at hsearch
      cases hsearch
      exact ⟨Heap.valid_pushAll hvalid setAside, fun p h => by cases h⟩
    | some r =>
      obtain ⟨i, rest⟩ := r
      have hperm := NodeQueue.perm_pop hp
      obtain ⟨hirest, hrest⟩ := List.nodup_cons.1 (hperm.nodup_iff.2 hnodup)
      have hsmaller := NodeQueue.size_of_pop _ hp
      have hleast := NodeQueue.isLE_of_pop hvalid hp
      -- Only the popped node changes, so the rest of the queue keeps its order.
      have hkeep : ∀ l, ∀ j ∈ rest.toList, (nodes.set i l i.isLt)[j] = nodes[j] :=
        fun l j hj => Nodes.getElem_set_of_mem nodes l hirest hj
      have hvalid' : ∀ l, Heap.Valid (NodeQueue.searchOrder (nodes.set i l i.isLt)) rest := by
        intro l
        refine (NodeQueue.valid_pop hvalid hp).congr ?_
        intro x hx y hy
        exact NodeQueue.searchOrder_congr (hkeep l x hx) (hkeep l y hy)
      cases hadmits : nodes[i].canAdmit pod.requests (startOn nodes[i] pod clock) with
      | true =>
        rw [search_of_canAdmit pod clock setAside hp hadmits] at hsearch
        cases hsearch
        refine ⟨Heap.valid_pushAll (hvalid' _) (i :: setAside), ?_⟩
        intro p h j hj
        cases h
        refine ⟨fun _ => hleast j hj, ?_⟩
        intro hji
        rw [Nodes.getElem_set_ne nodes _ hji, if_pos]
        exact NodeQueue.searchOrder_eq_lt (hleast j hj) hji.symm
      | false =>
        rw [search_of_not_canAdmit pod clock setAside hp hadmits] at hsearch
        obtain ⟨hvalidEnd, hfirst⟩ := ih rest.size (by omega) hrest (hvalid' _) hsearch rfl
        refine ⟨hvalidEnd, ?_⟩
        intro p h j hj
        obtain ⟨_, _, _, heq, _, htrial⟩ := search_spec pod clock
          (nodes.set i (nodes[i].advance (startOn nodes[i] pod clock)) i.isLt) rest (setAside ++ [i]) hrest
        rw [hsearch] at heq
        cases heq
        have hpmem : p.node ∈ rest.toList := (htrial.hosted p h).1
        rcases List.mem_cons.1 (hperm.mem_iff.2 hj) with rfl | hj
        · -- The popped node comes first, declined, and is not in the queue any more.
          refine ⟨fun hjadmits => ?_, fun _ => ?_⟩
          · rw [hadmits] at hjadmits
            cases hjadmits
          · rw [htrial.aside _ hirest, Nodes.getElem_set_self, if_neg]
            exact ne_lt_of_isLE (hleast p.node (hperm.mem_iff.1 (List.mem_cons_of_mem _ hpmem)))
        · have hjfirst := hfirst p h j hj
          rwa [NodeQueue.searchOrder_congr (hkeep _ p.node hpmem) (hkeep _ j hj), hkeep _ j hj] at hjfirst

/-! ### Both ways -/

/-- The start a node offers a pod: the clock, or with a queue the earliest start after what runs on
the node. -/
def offer (c : Cluster n) (pod : Pod) (clock : Seconds) (j : Fin n) : Seconds :=
  match c.queue? with
  | none => clock
  | some _ => startOn c.nodes[j] pod clock

/-- The queue, if there is one, holds each of the nodes once and is in order. -/
def Queues (c : Cluster n) (active : List (Fin n)) : Prop :=
  ∀ queue, c.queue? = some queue →
    queue.toList.Perm active ∧ Heap.Valid (NodeQueue.searchOrder c.nodes) queue

/-- Trying a pod always comes to a result. It changes the nodes as described by `Trial` and keeps the
queue, if there is one, complete and in order. -/
theorem place_spec (choice : NodeChoice) {active : List (Fin n)} (hactive : active.Nodup)
    {c : Cluster n} (hqueue : c.Queues active) (pod : Pod) (clock : Seconds) : ∃ c' placement?,
      c.place choice active pod clock = .ok (c', placement?) ∧
        c'.queue?.isSome = c.queue?.isSome ∧ c'.Queues active ∧
        Trial active pod (c.offer pod clock) c.nodes c'.nodes placement? := by
  obtain ⟨nodes, queue?⟩ := c
  cases queue? with
  | none =>
    obtain ⟨nodes', placement?, heq, htrial⟩ := placeNow_spec choice active nodes pod clock
    refine ⟨⟨nodes', none⟩, placement?, ?_, rfl, (fun q h => by cases h), htrial⟩
    rw [place]
    dsimp only
    rw [heq]
    rfl
  | some queue =>
    obtain ⟨hperm, hvalid⟩ := hqueue queue rfl
    have hnodup := hperm.nodup_iff.2 hactive
    obtain ⟨nodes', queue', placement?, heq, hperm', htrial⟩ :=
      search_spec pod clock nodes queue [] hnodup
    rw [List.append_nil] at hperm'
    refine ⟨⟨nodes', some queue'⟩, placement?, ?_, rfl, ?_, ?_⟩
    · rw [place]
      dsimp only
      rw [placeAhead, heq]
      rfl
    · intro q h
      cases h
      exact ⟨hperm'.trans hperm, (search_first hnodup hvalid heq).1⟩
    · exact htrial.congr_active fun j => hperm.mem_iff

/-- A placement ahead goes to a node that comes first in the order of the queue among the active nodes
that admit the pod at the start they offer. -/
theorem place_first {choice : NodeChoice} {active : List (Fin n)} (hactive : active.Nodup)
    {c c' : Cluster n} (hqueue : c.Queues active) (hahead : c.queue?.isSome = true) {pod : Pod}
    {clock : Seconds} {p : Placement n} (hplace : c.place choice active pod clock = .ok (c', some p))
    {j : Fin n} (hj : j ∈ active)
    (hadmits : c.nodes[j].canAdmit pod.requests (startOn c.nodes[j] pod clock) = true) :
    (NodeQueue.searchOrder c.nodes p.node j).isLE := by
  obtain ⟨nodes, queue?⟩ := c
  cases queue? with
  | none => cases hahead
  | some queue =>
    obtain ⟨hperm, hvalid⟩ := hqueue queue rfl
    have hnodup := hperm.nodup_iff.2 hactive
    obtain ⟨nodes', queue', placement?, heq, -, -⟩ := search_spec pod clock nodes queue [] hnodup
    rw [place] at hplace
    dsimp only at hplace
    rw [placeAhead, heq] at hplace
    cases hplace
    exact ((search_first hnodup hvalid heq).2 p rfl j (hperm.mem_iff.2 hj)).1 hadmits

end Cluster

end PodPlacement
