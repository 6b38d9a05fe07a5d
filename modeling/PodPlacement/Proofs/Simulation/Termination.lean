import Mathlib.Algebra.BigOperators.Fin
import Mathlib.Algebra.Order.BigOperators.Group.Finset
import PodPlacement.Proofs.Simulation.Runs

/-! # Simulations end

Whatever the ledgers, the pods and the times are, each step that does not end a run lowers the work that
remains: two for every pending pod, one more while it is not submitted, and one for every pod that runs
and finishes after the clock. A step that places pods lowers it by their number at least, a step that
waits passes the event it waits for. The work at the beginning is below `passLimit`, so the limit on the
number of passes is never felt.

* `Transition.remaining_lt` — the work that remains decreases.
* `steps_simulate` — what one step does alike in related states, several steps do alike.
* `ends_spec` — a simulation always ends, with a run that `history` is the log of. -/

namespace PodPlacement

/-! ### What is ahead -/

section Ahead

variable {α : Type} (instant : α → Seconds) {t u : Seconds}

/-- What is ahead of a later instant is ahead of an earlier one. -/
theorem filter_ahead_sublist (xs : List α) (h : t < u) :
    (xs.filter fun x => decide (u < instant x)).Sublist (xs.filter fun x => decide (t < instant x)) := by
  refine List.monotone_filter_right xs ?_
  intro x hx
  rw [decide_eq_true_eq] at *
  exact Binary64.lt_of_lt_of_le h (Binary64.le_of_lt hx)

/-- Passing an instant that is ahead leaves less ahead. -/
theorem length_filter_ahead_lt {xs : List α} {x : α} (hx : x ∈ xs) (hahead : t < instant x)
    (hpassed : instant x ≤ u) : (xs.filter fun x => decide (u < instant x)).length <
      (xs.filter fun x => decide (t < instant x)).length := by
  have hsub := filter_ahead_sublist instant xs (Binary64.lt_of_lt_of_le hahead hpassed)
  refine Nat.lt_of_le_of_ne hsub.length_le ?_
  -- Two lists of one length would be equal, but only one of them has `x` in it.
  intro hlength
  have hmem : x ∈ xs.filter fun x => decide (t < instant x) :=
    List.mem_filter.2 ⟨hx, decide_eq_true hahead⟩
  rw [← hsub.eq_of_length hlength, List.mem_filter, decide_eq_true_eq] at hmem
  exact Binary64.not_lt_of_le hpassed hmem.2

end Ahead

namespace Ledger

/-- How many running pods finish after `t`. -/
def outstanding (l : Ledger) (t : Seconds) : Nat := (l.pods.filter fun p => decide (t < p.finish)).length

/-- At most all running pods finish later. -/
theorem outstanding_le (l : Ledger) (t : Seconds) : l.outstanding t ≤ l.runningCount := by
  refine (List.length_filter_le _ _).trans ?_
  rw [pods, Heap.toList, Array.length_toList]
  exact Nat.le_refl _

/-- Advancing starts no pod. -/
theorem outstanding_advance_le (l : Ledger) (u t : Seconds) :
    (l.advance u).outstanding t ≤ l.outstanding t :=
  ((pods_advance_subperm l u).filter _).length_le

/-- Hosting starts one pod. -/
theorem outstanding_host_le (l : Ledger) (pod : Pod) (u t : Seconds) :
    (l.host pod u).outstanding t ≤ l.outstanding t + 1 := by
  have hperm := (pods_host_perm l pod u).filter fun p : RunningPod => decide (t < p.finish)
  have hle := outstanding_advance_le l u t
  rw [outstanding, hperm.length_eq, List.filter_cons]
  rw [outstanding] at hle
  split
  · rw [List.length_cons]
    omega
  · omega

end Ledger

namespace Simulation

variable {n : Nat}

/-! ### The work that remains -/

/-- How many running pods finish after `t`, on all nodes. -/
def outstanding (nodes : Nodes n) (t : Seconds) : Nat := ∑ j : Fin n, nodes[j].outstanding t

/-- How many pods are submitted after `t`. -/
def unsubmitted (pods : List Pod) (t : Seconds) : Nat :=
  (pods.filter fun p => decide (t < p.submit)).length

/-- The work that remains in a state. -/
def State.remaining (s : State n) : Nat :=
  2 * s.pending.length + unsubmitted s.pending s.clock + outstanding s.cluster.nodes s.clock

/-- A try adds one running pod if it places the pod, and none otherwise. -/
theorem Attempt.Sound.outstanding_le {policy : Policy} {active : List (Fin n)} {a : Attempt n}
    (h : a.Sound policy active) (t : Seconds) :
    outstanding a.after.nodes t ≤ outstanding a.before.nodes t + (bookings [a]).length := by
  cases hp : a.placement? with
  | none =>
    rw [bookings_cons_none hp]
    refine Finset.sum_le_sum ?_
    intro j _
    rcases h.trial.ledger j with ⟨-, hj | hj⟩ | ⟨p, hsome, -⟩
    · rw [hj]
    · rw [hj]
      exact Ledger.outstanding_advance_le _ _ _
    · rw [hp] at hsome
      cases hsome
  | some p =>
    have hle : ∀ j : Fin n, a.after.nodes[j].outstanding t ≤
        a.before.nodes[j].outstanding t + if j = p.node then 1 else 0 := by
      intro j
      rcases h.trial.ledger j with ⟨-, hj | hj⟩ | ⟨q, hsome, hq, -, -, hj⟩
      · rw [hj]
        exact Nat.le_add_right _ _
      · rw [hj]
        exact (Ledger.outstanding_advance_le _ _ _).trans (Nat.le_add_right _ _)
      · rw [hp] at hsome
        cases hsome
        rw [hj, if_pos hq.symm]
        exact Ledger.outstanding_host_le _ _ _ _
    calc outstanding a.after.nodes t
        ≤ ∑ j : Fin n, (a.before.nodes[j].outstanding t + if j = p.node then 1 else 0) :=
          Finset.sum_le_sum fun j _ => hle j
      _ = outstanding a.before.nodes t + (bookings [a]).length := by
          rw [Finset.sum_add_distrib, Finset.sum_ite_eq', if_pos (Finset.mem_univ _),
            bookings_cons_some hp]
          rfl

/-- A chain of tries adds one running pod for each booking. -/
theorem Chain.outstanding_le {policy : Policy} {active : List (Fin n)} {clock : Seconds}
    {cluster cluster' : Cluster n} {log : List (Attempt n)}
    (h : Chain policy active clock cluster log cluster') (t : Seconds) :
    outstanding cluster'.nodes t ≤ outstanding cluster.nodes t + (bookings log).length := by
  refine h.invariant (P := fun done c =>
    outstanding c.nodes t ≤ outstanding cluster.nodes t + (bookings done).length) ?_ [] (Nat.le_refl _)
  intro done a ha hbefore
  have hle := (h.sound a ha).1.outstanding_le t
  rw [bookings_append, List.length_append]
  omega

/-- On no node more pods finish after a later instant. -/
theorem outstanding_anti (nodes : Nodes n) {t u : Seconds} (h : t < u) :
    outstanding nodes u ≤ outstanding nodes t :=
  Finset.sum_le_sum fun _ _ => (filter_ahead_sublist RunningPod.finish _ h).length_le

/-- Passing an event that is ahead lowers the number of submissions and completions that are. -/
theorem ahead_lt {pending : List Pod} {nodes : Nodes n} {active : List (Fin n)}
    {clock event clock' : Seconds} (hevent : nextEvent? pending nodes active clock = some event)
    (hclock : event ≤ clock') : unsubmitted pending clock' + outstanding nodes clock' <
      unsubmitted pending clock + outstanding nodes clock := by
  obtain ⟨hlt, hwhich⟩ := of_nextEvent? hevent
  have hlt' : clock < clock' := Binary64.lt_of_lt_of_le hlt hclock
  -- Nothing else comes ahead, and the event itself is passed.
  rcases hwhich with ⟨pod, hpod, rfl⟩ | ⟨i, -, q, hq, rfl⟩
  · exact Nat.add_lt_add_of_lt_of_le (length_filter_ahead_lt Pod.submit hpod hlt hclock)
      (outstanding_anti nodes hlt')
  · refine Nat.add_lt_add_of_le_of_lt (filter_ahead_sublist Pod.submit pending hlt').length_le ?_
    refine Finset.sum_lt_sum (fun j _ => (filter_ahead_sublist RunningPod.finish _ hlt').length_le)
      ⟨i, Finset.mem_univ i, ?_⟩
    exact length_filter_ahead_lt RunningPod.finish hq hlt hclock

/-- At least as many pods leave as are placed, also if pods share a number. -/
theorem Tried.length_pending_le {policy : Policy} {active : List (Fin n)} {s : State n}
    {log : List (Attempt n)} {cluster : Cluster n} (h : Tried policy active s log cluster) :
    (s.pending.filter fun p => !((bookings log).map fun b => b.pod.id).contains p.id).length +
      (bookings log).length ≤ s.pending.length := by
  have hleave := h.pods_bookings_subperm.filter
    fun p => ((bookings log).map fun b => b.pod.id).contains p.id
  have hall : (((bookings log).map Booking.pod).filter
      fun p => ((bookings log).map fun b => b.pod.id).contains p.id) = (bookings log).map Booking.pod := by
    rw [List.filter_eq_self]
    intro pod hpod
    obtain ⟨b, hb, rfl⟩ := List.mem_map.1 hpod
    rw [List.contains_iff_mem]
    exact List.mem_map.2 ⟨b, hb, rfl⟩
  rw [hall] at hleave
  have hle := hleave.length_le
  rw [List.length_map] at hle
  rw [List.length_eq_length_filter_add (l := s.pending)
    fun p => ((bookings log).map fun b => b.pod.id).contains p.id]
  omega

/-- A step that does not end a run lowers the work that remains. -/
theorem Transition.remaining_lt {policy : Policy} {active : List (Fin n)} {s s' : State n}
    {log : List (Attempt n)} (h : Transition policy active s log s' none) :
    s'.remaining < s.remaining := by
  cases h with
  | placed htried hplaced =>
    have hleave := htried.length_pending_le
    have hrun := htried.chain.outstanding_le s.clock
    have hsome : 0 < (bookings log).length := List.length_pos_iff.2 hplaced
    have hahead : unsubmitted (s.pending.filter fun p =>
        !((bookings log).map fun b => b.pod.id).contains p.id) s.clock ≤ unsubmitted s.pending s.clock :=
      ((List.filter_sublist (l := s.pending)).filter _).length_le
    simp only [State.remaining]
    omega
  | @waited log cluster event htried hplaced hevent =>
    have hrun := htried.chain.outstanding_le s.clock
    have hnum : event.isNaN = false := (Binary64.lt_iff.1 (of_nextEvent? hevent).1).2.1
    have hpass := ahead_lt hevent (Binary64.le_maxNum_left hnum (s.clock + clockTick))
    rw [hplaced, List.length_nil] at hrun
    simp only [State.remaining]
    omega

/-! ### Runs to the end -/

/-- The tries of at most `limit` steps. -/
def log (policy : Policy) (active : List (Fin n)) : (limit : Nat) → State n → List (Attempt n)
  | 0, _ => []
  | limit + 1, s =>
    s.attempts policy active ++
      match step policy active s with
      | .ok (s', none) => log policy active limit s'
      | _ => []

/-- The first of some steps ends the simulation, or the others follow. -/
theorem steps_succ_eq_ok {policy : Policy} {active : List (Fin n)} {limit : Nat} {s t : State n}
    {status? : Option Status} : steps policy active (limit + 1) s = .ok (t, status?) ↔
      (∃ status, step policy active s = .ok (t, some status) ∧ status? = some status) ∨
        ∃ u, step policy active s = .ok (u, none) ∧ steps policy active limit u = .ok (t, status?) := by
  rw [steps]
  cases step policy active s with
  | error breach =>
    constructor
    · intro h
      cases h
    · rintro (⟨_, h, -⟩ | ⟨_, h, -⟩) <;> cases h
  | ok result =>
    obtain ⟨u, ended?⟩ := result
    cases ended? with
    | none =>
      constructor
      · intro h
        exact .inr ⟨u, rfl, h⟩
      · rintro (⟨_, h, -⟩ | ⟨_, h, hrest⟩) <;> cases h
        exact hrest
    | some status =>
      constructor
      · intro h
        cases h
        exact .inl ⟨status, rfl, rfl⟩
      · rintro (⟨_, h, rfl⟩ | ⟨_, h, -⟩) <;> cases h
        rfl

/-- Once the steps have come to an end, a higher limit changes nothing. -/
theorem steps_of_le {policy : Policy} {active : List (Fin n)} {limit limit' : Nat} {s t : State n}
    {status : Status} (hle : limit ≤ limit') (h : steps policy active limit s = .ok (t, some status)) :
    steps policy active limit' s = .ok (t, some status) := by
  induction limit generalizing limit' s with
  | zero => cases h
  | succ limit ih =>
    obtain ⟨limit', rfl⟩ := Nat.exists_eq_add_of_le' ((Nat.le_add_left 1 limit).trans hle)
    rw [steps_succ_eq_ok] at h ⊢
    refine h.imp_right ?_
    rintro ⟨u, hstep, hrest⟩
    exact ⟨u, hstep, ih (Nat.le_of_succ_le_succ hle) hrest⟩

/-- If one step does the same in related states and relates the states afterwards, so do several steps.
The nodes, and even the policies, need not be the same. -/
theorem steps_simulate {m : Nat} {policy policy' : Policy} {active : List (Fin n)}
    {active' : List (Fin m)} {R : State n → State m → Prop}
    (hstep : ∀ {s t : State n} {s' : State m} {status? : Option Status}, R s s' →
      step policy active s = .ok (t, status?) →
      ∃ t', step policy' active' s' = .ok (t', status?) ∧ R t t')
    (limit : Nat) {s t : State n} {s' : State m} {status? : Option Status} (hR : R s s')
    (h : steps policy active limit s = .ok (t, status?)) :
    ∃ t', steps policy' active' limit s' = .ok (t', status?) ∧ R t t' := by
  induction limit generalizing s s' with
  | zero =>
    cases h
    exact ⟨s', rfl, hR⟩
  | succ limit ih =>
    rcases steps_succ_eq_ok.1 h with ⟨status, hfirst, rfl⟩ | ⟨u, hfirst, hrest⟩
    · obtain ⟨t', hfirst', ht⟩ := hstep hR hfirst
      exact ⟨t', steps_succ_eq_ok.2 (.inl ⟨status, hfirst', rfl⟩), ht⟩
    · obtain ⟨u', hfirst', hu⟩ := hstep hR hfirst
      obtain ⟨t', hrest', ht⟩ := ih hu hrest
      exact ⟨t', steps_succ_eq_ok.2 (.inr ⟨u', hfirst', hrest'⟩), ht⟩

/-- With a limit above the work that remains, the steps come to an end. -/
theorem steps_spec {policy : Policy} {active : List (Fin n)} (hactive : active.Nodup) (limit : Nat)
    {s : State n} (hs : s.Sound policy active) (hlimit : s.remaining < limit) : ∃ s' status,
      steps policy active limit s = .ok (s', some status) ∧
        Runs policy active s (log policy active limit s) s' status := by
  induction limit generalizing s with
  | zero => exact absurd hlimit (Nat.not_lt_zero _)
  | succ limit ih =>
    obtain ⟨s', status?, heq, hstep⟩ := step_spec hactive hs
    rw [steps, log, heq]
    cases status? with
    | some status =>
      refine ⟨s', status, rfl, ?_⟩
      rw [List.append_nil]
      exact .stop hstep
    | none =>
      have hless := hstep.remaining_lt
      obtain ⟨s'', status, hsteps, hruns⟩ := ih (hstep.sound hs) (by omega)
      exact ⟨s'', status, hsteps, .next hstep hruns⟩

/-- Active nodes are listed once. -/
theorem nodup_activeNodes (nodes : Nodes n) : (activeNodes nodes).Nodup :=
  (List.nodup_finRange n).filter _

/-- Active nodes are listed by position. -/
theorem pairwise_activeNodes (nodes : Nodes n) : (activeNodes nodes).Pairwise (· < ·) :=
  (List.pairwise_lt_finRange n).filter _

/-- The active nodes are the ones that have CPU. -/
theorem mem_activeNodes {nodes : Nodes n} {j : Fin n} : j ∈ activeNodes nodes ↔ nodes[j].isActive = true := by
  rw [activeNodes, List.mem_filter]
  exact ⟨fun h => h.2, fun h => ⟨List.mem_finRange j, h⟩⟩

/-- A simulation begins in a sound state. -/
theorem sound_initial (policy : Policy) (nodes : Nodes n) (pods : List Pod) :
    (initial policy nodes pods).Sound policy (activeNodes nodes) := by
  refine ⟨?_, ?_, Binary64.le_refl rfl⟩
  · intro queue hqueue
    rw [initial] at hqueue
    dsimp only at hqueue
    split at hqueue
    · cases hqueue
      exact ⟨Heap.perm_ofList _, Heap.valid_ofList _⟩
    · cases hqueue
  · rw [initial]
    dsimp only
    split
    · rename_i h
      rw [h]
      rfl
    · rename_i h
      rw [Bool.not_eq_true] at h
      rw [h]
      rfl

/-- The work at the beginning is below the limit on the number of passes. -/
theorem remaining_initial_lt (policy : Policy) (nodes : Nodes n) (pods : List Pod) :
    (initial policy nodes pods).remaining < passLimit nodes pods := by
  have hpending : (initial policy nodes pods).pending.length = pods.length :=
    (arrange_perm policy.jobOrder pods).length_eq
  have hahead : unsubmitted (initial policy nodes pods).pending 0 ≤ pods.length := by
    rw [← hpending]
    exact List.length_filter_le _ _
  have hrunning : outstanding nodes 0 ≤
      nodes.toList.foldl (fun count l => count + l.runningCount) 0 := by
    rw [← List.foldl_map, ← List.sum_eq_foldl_nat]
    have hlist : nodes.toList = List.ofFn fun j : Fin n => nodes[j] := by
      rw [← Vector.toList_ofFn]
      congr
      exact Vector.ofFn_getElem.symm
    rw [hlist, List.map_ofFn, List.sum_ofFn]
    exact Finset.sum_le_sum fun j _ => Ledger.outstanding_le _ _
  have hnodes : (initial policy nodes pods).cluster.nodes = nodes := rfl
  have hclock : (initial policy nodes pods).clock = 0 := rfl
  rw [State.remaining, passLimit, hnodes, hclock]
  omega

/-- Ledgers by position. -/
def positions (nodes : List Ledger) : Nodes nodes.length := ⟨nodes.toArray, List.size_toArray⟩

/-- A ledger is found at its position. -/
@[simp] theorem getElem_positions (nodes : List Ledger) (j : Fin nodes.length) :
    (positions nodes)[j] = nodes.get j := rfl

/-- Idle nodes are idle at their positions. -/
theorem isIdle_positions {nodes : List Ledger} (h : ∀ l ∈ nodes, l.IsIdle) (j : Fin nodes.length) :
    (positions nodes)[j].IsIdle := h _ (List.getElem_mem j.isLt)

/-- All tries of a simulation, in turn. -/
def history (policy : Policy) (nodes : List Ledger) (pods : List Pod) : List (Attempt nodes.length) :=
  log policy (activeNodes (positions nodes)) (passLimit (positions nodes) pods)
    (initial policy (positions nodes) pods)

/-- The steps of a simulation end by themselves, within the limit and with a status. -/
def Ends (policy : Policy) (nodes : List Ledger) (pods : List Pod) (s : State nodes.length)
    (status : Status) : Prop :=
  steps policy (activeNodes (positions nodes)) (passLimit (positions nodes) pods)
    (initial policy (positions nodes) pods) = .ok (s, some status)

/-- What a simulation that ends comes to. -/
theorem Ends.runPolicy_eq {policy : Policy} {nodes : List Ledger} {pods : List Pod}
    {s : State nodes.length} {status : Status} (h : Ends policy nodes pods s status) :
    runPolicy policy nodes pods =
      .ok ⟨none, policy, s.schedule, status, pods.length, s.cluster.nodes.toList⟩ := by
  rw [Ends, positions] at h
  show (steps _ _ _ _ >>= _) = _
  rw [h]
  rfl

/-- A simulation always ends, with a run that `history` is the log of. -/
theorem ends_spec (policy : Policy) (nodes : List Ledger) (pods : List Pod) : ∃ s status,
    Ends policy nodes pods s status ∧
      Runs policy (activeNodes (positions nodes)) (initial policy (positions nodes) pods)
        (history policy nodes pods) s status :=
  steps_spec (nodup_activeNodes (positions nodes)) (passLimit (positions nodes) pods)
    (sound_initial policy (positions nodes) pods) (remaining_initial_lt policy (positions nodes) pods)

/-- What can be decided about the outcome of a simulation can be found out by running it. -/
theorem exists_outcome_of_any {policy : Policy} {nodes : List Ledger} {pods : List Pod}
    {P : Outcome → Prop} [DecidablePred P]
    (h : (runPolicy policy nodes pods).toOption.any (fun outcome => decide (P outcome)) = true) :
    ∃ outcome, runPolicy policy nodes pods = .ok outcome ∧ P outcome := by
  cases houtcome : runPolicy policy nodes pods with
  | error breach =>
    rw [houtcome] at h
    cases h
  | ok outcome =>
    rw [houtcome] at h
    exact ⟨outcome, rfl, of_decide_eq_true h⟩

end Simulation

end PodPlacement
