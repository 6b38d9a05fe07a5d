import PodPlacement.Proofs.Simulation.Termination

/-! # The passes of a simulation

A simulation is a loop of passes. `Loop` is this loop as it is, without a limit on the number of passes
and with every pass counted, the last one too. It is left because a run ends, and never because a ledger
refuses a pod that it admitted: between the two questions nothing happens to the ledger.

* `Loop.steps_eq` — with a limit that is not too low, `steps` goes through the loop.
* `exists_loop` — the loop entered in a sound state is left, one pass after the remaining work is used
  up at the latest.
* `runPolicy_passes_le` — how many passes a simulation makes at most.
* `runPolicy_never_refuses` — every simulation comes to an outcome, and every pod that is placed is
  started by a ledger that was asked twice and said yes twice. -/

namespace PodPlacement

namespace Simulation

variable {n : Nat} {policy : Policy} {active : List (Fin n)}

/-! ### The loop -/

/-- The loop of passes, entered in one state and left in another one, with the number of passes and the
status it is left with. -/
inductive Loop (policy : Policy) (active : List (Fin n)) : Nat → State n → State n → Status → Prop where
  /-- The pass in which the loop is left. -/
  | leave {s s' : State n} {status : Status} (h : step policy active s = .ok (s', some status)) :
    Loop policy active 1 s s' status
  /-- A pass that is followed by others. -/
  | again {count : Nat} {s s' s'' : State n} {status : Status}
    (h : step policy active s = .ok (s', none)) (hrest : Loop policy active count s' s'' status) :
    Loop policy active (count + 1) s s'' status

/-- With a limit that is not too low, `steps` goes through the loop. -/
theorem Loop.steps_eq {count : Nat} {s s' : State n} {status : Status}
    (h : Loop policy active count s s' status) {limit : Nat} (hlimit : count ≤ limit) :
    steps policy active limit s = .ok (s', some status) := by
  induction h generalizing limit with
  | leave h =>
    obtain ⟨limit, rfl⟩ := Nat.exists_eq_add_of_le' hlimit
    rw [steps, h]
    rfl
  | again h _ ih =>
    obtain ⟨limit, rfl⟩ := Nat.exists_eq_add_of_le' ((Nat.le_add_left 1 _).trans hlimit)
    have hrest := ih (Nat.le_of_succ_le_succ hlimit)
    rw [steps, h]
    exact hrest

/-- The loop entered in a sound state is left. Every pass but the last one takes away some of the work
that remains. -/
theorem exists_loop (hactive : active.Nodup) {s : State n} (hs : s.Sound policy active) :
    ∃ count s' status, Loop policy active count s s' status ∧ count ≤ s.remaining + 1 := by
  -- The work that remains in the state the loop is entered in decreases from pass to pass.
  induction hwork : s.remaining using Nat.strongRecOn generalizing s with
  | _ work ih =>
    obtain ⟨s', status?, heq, hstep⟩ := step_spec hactive hs
    cases status? with
    | some status => exact ⟨1, s', status, .leave heq, Nat.le_add_left 1 work⟩
    | none =>
      have hless : s'.remaining < work := hwork ▸ hstep.remaining_lt
      obtain ⟨count, s'', status, hloop, hcount⟩ := ih s'.remaining hless (hstep.sound hs) rfl
      exact ⟨count + 1, s'', status, .again heq hloop, by omega⟩

/-! ### Simulations -/

/-- The limit on the number of passes in terms of the given pods and of the pods that run already. -/
theorem passLimit_positions (nodes : List Ledger) (pods : List Pod) :
    passLimit (positions nodes) pods =
      3 * pods.length + (nodes.map Ledger.runningCount).sum + 1 := by
  have hlist : (positions nodes).toList = nodes := rfl
  rw [passLimit, hlist, ← List.foldl_map, ← List.sum_eq_foldl_nat]

/-- Whatever the policy, the ledgers and the pods are, a simulation leaves its loop of passes by itself,
after three passes for each pod, one for each pod that runs already and one more at the latest. Its
outcome is that of the loop. -/
theorem runPolicy_passes_le (policy : Policy) (nodes : List Ledger) (pods : List Pod) :
    ∃ count s status, Loop policy (activeNodes (positions nodes)) count
        (initial policy (positions nodes) pods) s status ∧
      count ≤ 3 * pods.length + (nodes.map Ledger.runningCount).sum + 1 ∧
      runPolicy policy nodes pods =
        .ok ⟨none, policy, s.schedule, status, pods.length, s.cluster.nodes.toList⟩ := by
  obtain ⟨count, s, status, hloop, hcount⟩ := exists_loop (nodup_activeNodes (positions nodes))
    (sound_initial policy (positions nodes) pods)
  have hwork := remaining_initial_lt policy (positions nodes) pods
  have hlimit : count ≤ passLimit (positions nodes) pods := by omega
  have hends : Ends policy nodes pods s status := hloop.steps_eq hlimit
  rw [passLimit_positions] at hlimit
  exact ⟨count, s, status, hloop, hlimit, hends.runPolicy_eq⟩

/-- Whatever the policy, the ledgers and the pods are, a simulation comes to an outcome: a ledger that
was advanced to a start and admitted a pod then starts the pod when it is asked to. -/
theorem runPolicy_never_refuses (nodes : List Ledger) (pods : List Pod) :
    (∀ policy : Policy, ∃ outcome, runPolicy policy nodes pods = .ok outcome) ∧
      (∀ heuristic : Heuristic, ∃ outcome, run heuristic nodes pods = .ok outcome) ∧
      ∀ policy : Policy, ∀ a ∈ history policy nodes pods, ∀ p, a.placement? = some p →
        ((a.before.nodes[p.node].advance p.start).assign a.pod.id a.pod.duration a.pod.requests
          p.start).2 = .ok p.finish := by
  have hok : ∀ policy : Policy, ∃ outcome, runPolicy policy nodes pods = .ok outcome := by
    intro policy
    obtain ⟨s, status, hends, -⟩ := ends_spec policy nodes pods
    exact ⟨_, hends.runPolicy_eq⟩
  refine ⟨hok, ?_, ?_⟩
  · intro heuristic
    obtain ⟨outcome, houtcome⟩ := hok heuristic.policy
    refine ⟨{ outcome with heuristic? := some heuristic }, ?_⟩
    rw [run, houtcome]
    rfl
  · intro policy a ha p hp
    obtain ⟨s, status, -, hruns⟩ := ends_spec policy nodes pods
    obtain ⟨-, -, hfinish, hadmits, -⟩ := (hruns.sound a ha).1.trial.hosted p hp
    -- The first question has advanced the ledger, and advancing it again changes nothing.
    rw [← Ledger.canAdmit_advance_self] at hadmits
    rw [Ledger.assign_of_canAdmit hadmits, hfinish]

end Simulation

end PodPlacement
