import PodPlacement.Proofs.Simulation.Accounting

/-! # Ledgers and schedules over time

A ledger forgets a pod once it was advanced past the finish of the pod, and a pod that is placed ahead
advances ledgers beyond the clock. What remains true is a `Timeline`: from the instant the ledger has
reached, its running pods are the bookings that run then, and the bookings that run at any instant were
once together on the ledger. A new booking starts at or after the instant the ledger has reached, so it
never overlaps a pod that was forgotten.

So what holds of a ledger in every state it goes through carries over to the schedule, whatever it is:
an `Invariant` is a parameter here.

* `Timeline.advance`, `Timeline.host` — a ledger and its bookings keep a timeline.
* `Runs.timeline` — at the end of every run each ledger has a timeline.
* `Runs.exists_requests_subperm` — the records that run on a node at an instant were once together on a
  ledger for which the invariant holds. -/

namespace PodPlacement

/-! ### Bookings that run at an instant -/

variable {n : Nat}

/-- The booking holds resources of its node at `t`. -/
def Booking.isRunningAt (b : Booking n) (t : Seconds) : Bool :=
  decide (b.start ≤ t) && decide (t < b.finish)

/-- What the bookings that run at `t` hold. -/
def requestsAt (bs : List (Booking n)) (t : Seconds) : List Resources :=
  (bs.filter fun b => b.isRunningAt t).map fun b => b.pod.requests

/-- A booking that runs adds its request. -/
theorem requestsAt_append_of_isRunningAt (bs : List (Booking n)) {b : Booking n} {t : Seconds}
    (h : b.isRunningAt t = true) : requestsAt (bs ++ [b]) t = requestsAt bs t ++ [b.pod.requests] := by
  have hb : [b].filter (fun b => b.isRunningAt t) = [b] := List.filter_cons_of_pos h
  rw [requestsAt, List.filter_append, hb, List.map_append]
  rfl

/-- A booking that does not run adds nothing. -/
theorem requestsAt_append_of_not_isRunningAt (bs : List (Booking n)) {b : Booking n} {t : Seconds}
    (h : ¬ b.isRunningAt t = true) : requestsAt (bs ++ [b]) t = requestsAt bs t := by
  have hb : [b].filter (fun b => b.isRunningAt t) = [] := List.filter_cons_of_neg h
  rw [requestsAt, List.filter_append, hb, List.append_nil]
  rfl

/-! ### Timelines -/

/-- A ledger together with everything ever booked on it, and what was true of it all along. -/
structure Timeline (Q : Nat → Ledger → Prop) (bs : List (Booking n)) (l : Ledger) : Prop where
  /-- The ledger is sorted. -/
  sorted : l.Sorted
  /-- The instant the ledger has reached is a number. -/
  reached : l.advancedTo.isNaN = false
  /-- The invariant holds. -/
  invariant : Q bs.length l
  /-- From the instant the ledger has reached, its pods are the bookings that run. -/
  running : ∀ t, l.advancedTo ≤ t → (requestsAt bs t).Perm (l.requestsAfter t)
  /-- The bookings that run at an instant were once together on the ledger. -/
  together : ∀ t, ∃ count ≤ bs.length, ∃ l', Q count l' ∧ l'.capacity = l.capacity ∧
    (requestsAt bs t).Subperm l'.requests

namespace Timeline

variable {K : Resources → Prop} {Q : Nat → Ledger → Prop} {bs : List (Booking n)} {l : Ledger}

/-- An idle ledger without bookings. -/
theorem idle {name : String} {capacity : Resources} (h : Q 0 (Ledger.idle name capacity)) :
    Timeline Q ([] : List (Booking n)) (Ledger.idle name capacity) where
  sorted := Ledger.sorted_idle name capacity
  reached := rfl
  invariant := h
  running _ _ := .refl _
  together _ := ⟨0, Nat.le_refl _, _, h, rfl, List.nil_subperm⟩

/-- Advancing a ledger keeps its timeline: what is completed has finished. -/
theorem advance (h : Timeline Q bs l) (hinv : Ledger.Invariant K Q) (u : Seconds) :
    Timeline Q bs (l.advance u) where
  sorted := h.sorted.advance u
  reached := Binary64.isNaN_maxNum_left h.reached u
  invariant := hinv.advance u h.invariant
  running := by
    intro t ht
    rw [Ledger.advancedTo_advance] at ht
    refine (h.running t (Binary64.le_trans (Binary64.le_maxNum_left h.reached u) ht)).trans ?_
    refine List.Perm.map RunningPod.request ?_
    refine List.Perm.trans ?_ ((h.sorted.pods_advance_perm u).filter _).symm
    rw [List.filter_filter]
    refine List.Perm.of_eq (List.filter_congr ?_)
    intro p _
    by_cases hrun : t < p.finish
    · -- A pod that finishes after `t` cannot have finished by `u`.
      have hstay : ¬ p.finish ≤ u := by
        intro hle
        have hu := Binary64.le_maxNum_right l.advancedTo (Binary64.isNaN_of_le_right hle)
        exact Binary64.not_lt_of_le (Binary64.le_trans hle (Binary64.le_trans hu ht)) hrun
      simp only [hrun, hstay, decide_true, decide_false, Bool.not_false, Bool.and_self]
    · simp only [hrun, decide_false, Bool.false_and]
  together := h.together

variable {b : Booking n}

/-- From the start of a new booking, the pods of the ledger that hosts it are the bookings that run. -/
theorem running_host (h : Timeline Q bs l) (hinv : Ledger.Invariant K Q)
    (hstart : l.advancedTo ≤ b.start) (hfinish : b.finish = b.start + b.pod.duration) {t : Seconds}
    (ht : b.start ≤ t) :
    (requestsAt (bs ++ [b]) t).Perm ((l.host b.pod b.start).requestsAfter t) := by
  have hreach : (l.advance b.start).advancedTo ≤ t :=
    Binary64.maxNum_le (Binary64.le_trans hstart ht) ht
  have hbefore := (h.advance hinv b.start).running t hreach
  have hpods := ((Ledger.pods_host_perm l b.pod b.start).filter fun p => decide (t < p.finish)).map
    RunningPod.request
  refine List.Perm.trans ?_ hpods.symm
  by_cases hrun : t < b.start + b.pod.duration
  · have hb : b.isRunningAt t = true := by
      rw [Booking.isRunningAt, hfinish, decide_eq_true ht, decide_eq_true hrun, Bool.and_self]
    rw [requestsAt_append_of_isRunningAt bs hb, List.filter_cons_of_pos (by simpa using hrun),
      List.map_cons]
    exact (List.perm_append_singleton _ _).trans (hbefore.cons _)
  · have hb : ¬ b.isRunningAt t = true := by
      rw [Booking.isRunningAt, hfinish, decide_eq_false hrun, Bool.and_false]
      exact Bool.false_ne_true
    rw [requestsAt_append_of_not_isRunningAt bs hb, List.filter_cons_of_neg (by simpa using hrun)]
    exact hbefore

/-- Starting a pod no earlier than the instant the ledger has reached keeps its timeline. -/
theorem host (h : Timeline Q bs l) (hinv : Ledger.Invariant K Q) (hrequest : K b.pod.requests)
    (hstart : l.advancedTo ≤ b.start) (hfinish : b.finish = b.start + b.pod.duration)
    (hadmits : l.canAdmit b.pod.requests b.start = true) :
    Timeline Q (bs ++ [b]) (l.host b.pod b.start) := by
  have hadvanced := h.advance hinv b.start
  have hnow : Q (bs ++ [b]).length (l.host b.pod b.start) := by
    rw [List.length_append, List.length_singleton]
    exact hinv.start hrequest hadvanced.invariant (Ledger.canAdmit_iff.1 hadmits)
  have hnum : b.start.isNaN = false := Binary64.isNaN_of_le_right hstart
  refine ⟨hadvanced.sorted.start _, hadvanced.reached, hnow, ?_, ?_⟩
  · intro t ht
    exact h.running_host hinv hstart hfinish
      (Binary64.le_trans (Binary64.le_maxNum_right _ hnum) ht)
  · intro t
    by_cases ht : b.start ≤ t
    · -- From its start on, the new booking is on the ledger with all others that run.
      exact ⟨_, Nat.le_refl _, _, hnow, rfl, (h.running_host hinv hstart hfinish ht).subperm.trans
        (Ledger.requestsAfter_subperm _ _)⟩
    · -- Before its start the new booking does not count.
      have hb : ¬ b.isRunningAt t = true := by
        rw [Booking.isRunningAt, decide_eq_false ht, Bool.false_and]
        exact Bool.false_ne_true
      obtain ⟨count, hcount, l', hl', hcapacity, hsub⟩ := h.together t
      rw [requestsAt_append_of_not_isRunningAt bs hb, List.length_append]
      exact ⟨count, Nat.le_add_right_of_le hcount, l', hl', hcapacity, hsub⟩

end Timeline

/-- The records that hold resources of a node at `t`. -/
def Schedule.runningOn (s : Schedule) (node : String) (t : Seconds) : List Record :=
  (s.recordsOn node).filter fun r => r.isRunningAt t

namespace Simulation

/-! ### Bookings on a node -/

/-- The bookings of a log on one node. -/
def bookingsOn (j : Fin n) (log : List (Attempt n)) : List (Booking n) :=
  (bookings log).filter fun b => b.node = j

/-- A try that does not book on a node changes nothing there. -/
theorem bookingsOn_append_ne {j : Fin n} {a : Attempt n}
    (h : ∀ p, a.placement? = some p → p.node ≠ j) (done : List (Attempt n)) :
    bookingsOn j (done ++ [a]) = bookingsOn j done := by
  have hnone : (bookings [a]).filter (fun b => b.node = j) = [] := by
    rw [List.filter_eq_nil_iff]
    intro b hb
    obtain ⟨a', ha', hp, -⟩ := mem_bookings.1 hb
    rw [List.mem_singleton.1 ha'] at hp
    simpa using h _ hp
  rw [bookingsOn, bookings_append, List.filter_append, hnone, List.append_nil]
  rfl

/-- A try that books on a node adds the booking there. -/
theorem bookingsOn_append_eq {a : Attempt n} {p : Placement n} (h : a.placement? = some p)
    (done : List (Attempt n)) :
    bookingsOn p.node (done ++ [a]) = bookingsOn p.node done ++ [⟨p, a.pod⟩] := by
  rw [bookingsOn, bookings_append, List.filter_append, bookings_cons_some h, bookings_nil,
    List.filter_cons_of_pos (by simp)]
  rfl

/-! ### Timelines of runs -/

namespace Attempt.Sound

variable {policy : Policy} {active : List (Fin n)} {a : Attempt n} {j : Fin n}

/-- A node does not offer a start before the instant its ledger has reached, provided that instant is
not after the clock when pods are placed at the clock. -/
theorem advancedTo_le_offer (h : a.Sound policy active) (hnum : a.before.nodes[j].advancedTo.isNaN = false)
    (hclock : policy.anticipates = false → a.before.nodes[j].advancedTo ≤ a.clock) :
    a.before.nodes[j].advancedTo ≤ a.before.offer a.pod a.clock j := by
  cases hahead : policy.anticipates with
  | false =>
    rw [h.offer_eq_clock hahead]
    exact hclock hahead
  | true =>
    rw [h.offer_eq_startOn hahead]
    exact Cluster.advancedTo_le_startOn hnum

/-- Without a queue a try advances no ledger beyond the clock. -/
theorem advancedTo_le_clock (h : a.Sound policy active) (hnow : policy.anticipates = false)
    (hreached : a.before.nodes[j].advancedTo ≤ a.clock) : a.after.nodes[j].advancedTo ≤ a.clock := by
  have hclock := Binary64.le_refl h.clock_isNaN
  rcases h.trial.ledger j with ⟨-, hj | hj⟩ | ⟨p, -, -, -, -, hj⟩
  · rw [hj]
    exact hreached
  · rw [hj, Ledger.advancedTo_advance, h.offer_eq_clock hnow]
    exact Binary64.maxNum_le hreached hclock
  · rw [hj, Ledger.advancedTo_host, h.offer_eq_clock hnow]
    exact Binary64.maxNum_le hreached hclock

/-- A try keeps the timeline of a node that offers no start before the instant its ledger has reached. -/
theorem timeline {K : Resources → Prop} {Q : Nat → Ledger → Prop} (h : a.Sound policy active)
    (hinv : Ledger.Invariant K Q) (hrequest : K a.pod.requests) {done : List (Attempt n)}
    (htimeline : Timeline Q (bookingsOn j done) a.before.nodes[j])
    (hoffer : a.before.nodes[j].advancedTo ≤ a.before.offer a.pod a.clock j) :
    Timeline Q (bookingsOn j (done ++ [a])) a.after.nodes[j] := by
  rcases h.trial.ledger j with ⟨hne, hj | hj⟩ | ⟨p, hp, rfl, hstart, hadmits, hj⟩
  · rw [bookingsOn_append_ne hne, hj]
    exact htimeline
  · rw [bookingsOn_append_ne hne, hj]
    exact htimeline.advance hinv _
  · rw [bookingsOn_append_eq hp, hj]
    rw [← hstart] at hadmits hoffer ⊢
    exact htimeline.host (b := ⟨p, a.pod⟩) hinv hrequest hoffer (h.trial.hosted p hp).2.2.1 hadmits

end Attempt.Sound

variable {K : Resources → Prop} {Q : Nat → Ledger → Prop}

/-- Along a run from ledgers without bookings, every ledger keeps a timeline. -/
theorem Runs.timeline {policy : Policy} {active : List (Fin n)} {s s' : State n}
    {log : List (Attempt n)} {status : Status} (h : Runs policy active s log s' status)
    (hinv : Ledger.Invariant K Q) (hrequests : ∀ pod ∈ s.pending, K pod.requests)
    (hinit : ∀ j : Fin n, Timeline Q ([] : List (Booking n)) s.cluster.nodes[j])
    (hclock : ∀ j : Fin n, s.cluster.nodes[j].advancedTo ≤ s.clock) (j : Fin n) :
    Timeline Q (bookingsOn j log) s'.cluster.nodes[j] := by
  -- Pods placed at the clock need their ledger to be no further than that, so both are carried along.
  have hall := h.invariant (K := fun pod => K pod.requests)
    (P := fun done clock c =>
      (∀ j : Fin n, Timeline Q (bookingsOn j done) c.nodes[j]) ∧
        (policy.anticipates = false → ∀ j : Fin n, c.nodes[j].advancedTo ≤ clock))
    ?_ ?_ hrequests [] ⟨hinit, fun _ => hclock⟩
  · exact hall.1 j
  · rintro done a hsound hrequest ⟨htimeline, hreached⟩
    constructor
    · intro j
      exact hsound.timeline hinv hrequest (htimeline j)
        (hsound.advancedTo_le_offer (htimeline j).reached fun hnow => hreached hnow j)
    · intro hnow j
      exact hsound.advancedTo_le_clock hnow (hreached hnow j)
  · rintro done clock clock' cluster hlt ⟨htimeline, hreached⟩
    exact ⟨htimeline, fun hnow j => Binary64.le_trans (hreached hnow j) (Binary64.le_of_lt hlt)⟩

/-! ### Schedules -/

section Schedules

variable {policy : Policy} {nodes : List Ledger} {pods : List Pod} {log : List (Attempt nodes.length)}
  {s : State nodes.length} {status : Status}

/-- If the names of the nodes are distinct, the records on a node are those of the bookings there. -/
theorem recordsOn_eq (hnames : (nodes.map Ledger.name).Nodup) {schedule : Schedule}
    (hrecords : schedule.records = (bookings log).map (Booking.record (positions nodes)))
    (j : Fin nodes.length) :
    schedule.recordsOn (positions nodes)[j].name =
      (bookingsOn j log).map (Booking.record (positions nodes)) := by
  rw [Schedule.recordsOn, hrecords, List.filter_map]
  congr 1
  refine List.filter_congr ?_
  intro b _
  show decide (nodes[b.node].name = nodes[j].name) = decide (b.node = j)
  refine decide_eq_decide.2 ⟨?_, fun h => by subst h; rfl⟩
  intro hname
  have hledger := List.inj_on_of_nodup_map hnames (List.getElem_mem b.node.isLt)
    (List.getElem_mem j.isLt) hname
  exact Fin.ext ((List.Nodup.getElem_inj_iff (List.Nodup.of_map Ledger.name hnames)).1 hledger)

/-- What the records hold on a node at an instant is what the bookings hold. -/
theorem requests_runningOn (hnames : (nodes.map Ledger.name).Nodup) {schedule : Schedule}
    (hrecords : schedule.records = (bookings log).map (Booking.record (positions nodes)))
    (j : Fin nodes.length) (t : Seconds) :
    (schedule.runningOn (positions nodes)[j].name t).map Record.requests =
      requestsAt (bookingsOn j log) t := by
  rw [Schedule.runningOn, recordsOn_eq hnames hrecords, List.filter_map, List.map_map]
  rfl

/-- In a simulation from idle nodes, the records that run on a node at an instant were once together on
a ledger of the node for which the invariant holds. -/
theorem Runs.exists_requests_subperm
    (h : Runs policy (activeNodes (positions nodes)) (initial policy (positions nodes) pods) log s status)
    (hinv : Ledger.Invariant K Q) (hidle : ∀ l ∈ nodes, l.IsIdle)
    (hnames : (nodes.map Ledger.name).Nodup) (hnodes : ∀ l ∈ nodes, Q 0 l)
    (hrequests : ∀ pod ∈ pods, K pod.requests) (j : Fin nodes.length) (t : Seconds) :
    ∃ count ≤ (bookings log).length, ∃ l, Q count l ∧ l.capacity = (positions nodes)[j].capacity ∧
      ((s.schedule.runningOn (positions nodes)[j].name t).map Record.requests).Subperm l.requests := by
  have htimeline := h.timeline hinv
    (fun pod hpod => hrequests pod ((arrange_perm policy.jobOrder pods).subset hpod))
    (fun i => by
      show Timeline Q [] (positions nodes)[i]
      have hi : Q 0 (positions nodes)[i] := hnodes _ (List.getElem_mem i.isLt)
      rw [isIdle_positions hidle i] at hi ⊢
      exact .idle hi)
    (fun i => by
      show (positions nodes)[i].advancedTo ≤ 0
      rw [(isIdle_positions hidle i).advancedTo_eq]
      exact Binary64.le_refl rfl) j
  obtain ⟨count, hcount, l, hl, hcapacity, hsub⟩ := htimeline.together t
  refine ⟨count, hcount.trans (List.length_filter_le _ _), l, hl, ?_, ?_⟩
  · rw [hcapacity]
    exact (h.capacity_eq j).1
  · rw [requests_runningOn hnames h.records_eq j t]
    exact hsub

end Schedules

end Simulation

end PodPlacement
