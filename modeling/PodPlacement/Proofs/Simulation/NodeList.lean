import Mathlib.Order.Fin.Basic
import PodPlacement.Proofs.Ledger.Balance
import PodPlacement.Proofs.Placement.Renaming
import PodPlacement.Proofs.Simulation.Events
import PodPlacement.Proofs.Simulation.Termination

/-! # The list of nodes

The nodes are given as a list, and a simulation knows them by their positions in it. Still the positions
hardly matter. If the active nodes of one list correspond to those of another one and the positions decide
nothing, two simulations go through states that mirror each other.

* `pass_mirrors`, `step_mirrors` — clusters that mirror each other stay so, and all else in the two states
  is the same.
* `runPolicy_mirrors` — so the two simulations agree.
* `run_nodes_perm` — if names decide between nodes, the nodes may be given in any order.
* `Inserts`, `runPolicy_inserts` — nodes without CPU may be inserted anywhere. -/

namespace PodPlacement

namespace Simulation

variable {n m : Nat} {policy : Policy} {f : Fin n → Fin m} {active : List (Fin n)}
  {active' : List (Fin m)}

/-! ### Two simulations side by side -/

/-- A pass places the same pods at the same times on clusters that mirror each other. -/
theorem pass_mirrors (hf : Renaming f active active') {clock : Seconds} {pods : List Pod}
    {c d : Cluster n} {c' : Cluster m} (h : c.Mirrors policy.nodeChoice f active active' c')
    {schedule schedule' : Schedule} {placed : List Nat}
    (hpass : pass policy active clock pods c schedule = .ok (d, schedule', placed)) :
    ∃ d', pass policy active' clock pods c' schedule = .ok (d', schedule', placed) ∧
      d.Mirrors policy.nodeChoice f active active' d' := by
  induction pods generalizing c c' schedule placed with
  | nil =>
    cases hpass
    exact ⟨c', rfl, h⟩
  | cons pod pods ih =>
    obtain ⟨e, e', placement?, hplace, hplace', hafter, hmem⟩ := h.place hf pod clock
    cases placement? with
    | none =>
      rw [pass_cons_none hplace] at hpass
      rw [pass_cons_none hplace']
      exact ih hafter hpass
    | some p =>
      rw [pass, hplace] at hpass
      simp only [bind, Except.bind] at hpass
      cases hrest : pass policy active clock pods e
          (schedule.push (Record.ofPod pod e.nodes[p.node].name p.start p.finish)) with
      | error breach =>
        rw [hrest] at hpass
        cases hpass
      | ok result =>
        rw [hrest] at hpass
        cases hpass
        -- The node has the same name in both clusters, so the record is the same.
        obtain ⟨d', hrest', hd⟩ := ih hafter hrest
        rw [← hafter.ledger p.node (hmem p rfl)] at hrest'
        exact ⟨d', pass_cons_some hplace' hrest', hd⟩

/-- The events ahead are the same. -/
theorem isEvent_mirrors (hf : Renaming f active active') {c : Cluster n} {c' : Cluster m}
    (h : c.Mirrors policy.nodeChoice f active active' c') (pending : List Pod) (clock t : Seconds) :
    IsEvent pending c.nodes active clock t ↔ IsEvent pending c'.nodes active' clock t := by
  constructor
  · rintro ⟨hahead, hoccurs⟩
    refine ⟨hahead, hoccurs.imp_right ?_⟩
    rintro ⟨i, hi, q, hq, hfinish⟩
    exact ⟨f i, hf.mem hi, q, by rwa [h.ledger i hi], hfinish⟩
  · rintro ⟨hahead, hoccurs⟩
    refine ⟨hahead, hoccurs.imp_right ?_⟩
    rintro ⟨j, hj, q, hq, hfinish⟩
    obtain ⟨i, hi, rfl⟩ := (hf.mem_iff j).1 hj
    exact ⟨i, hi, q, by rwa [← h.ledger i hi], hfinish⟩

/-- Two states are alike but for the positions of the nodes. -/
structure State.Mirrors (policy : Policy) (f : Fin n → Fin m) (active : List (Fin n))
    (active' : List (Fin m)) (s : State n) (s' : State m) : Prop where
  /-- They are at the same instant. -/
  clock : s'.clock = s.clock
  /-- The same pods are pending. -/
  pending : s'.pending = s.pending
  /-- The clusters mirror each other. -/
  cluster : s.cluster.Mirrors policy.nodeChoice f active active' s'.cluster
  /-- The records are the same. -/
  schedule : s'.schedule = s.schedule

/-- A step does the same in states that are alike. -/
theorem step_mirrors (hf : Renaming f active active') {s t : State n} {s' : State m}
    {status? : Option Status} (h : s.Mirrors policy f active active' s')
    (hstep : step policy active s = .ok (t, status?)) :
    ∃ t', step policy active' s' = .ok (t', status?) ∧ t.Mirrors policy f active active' t' := by
  obtain ⟨clock, pending, c', schedule⟩ := s'
  obtain ⟨hclock, hpending, hcluster, hschedule⟩ := h
  cases hclock
  cases hpending
  cases hschedule
  cases step_eq_ok.1 hstep with
  | completed hnone => exact ⟨_, step_eq_ok.2 (.completed hnone), rfl, rfl, hcluster, rfl⟩
  | noActiveNodes hsome hactive =>
    exact ⟨_, step_eq_ok.2 (.noActiveNodes hsome (hf.eq_nil_iff.2 hactive)), rfl, rfl, hcluster, rfl⟩
  | placed hsome hactive hpass hplaced =>
    obtain ⟨d', hpass', hd⟩ := pass_mirrors hf hcluster hpass
    exact ⟨_, step_eq_ok.2 (.placed hsome (mt hf.eq_nil_iff.1 hactive) hpass' hplaced), rfl, rfl, hd, rfl⟩
  | waited hsome hactive hpass hevent =>
    obtain ⟨d', hpass', hd⟩ := pass_mirrors hf hcluster hpass
    rw [nextEvent?_congr (isEvent_mirrors hf hd s.pending s.clock)] at hevent
    exact ⟨_, step_eq_ok.2 (.waited hsome (mt hf.eq_nil_iff.1 hactive) hpass' hevent), rfl, rfl, hd, rfl⟩
  | stuck hsome hactive hpass hevent =>
    obtain ⟨d', hpass', hd⟩ := pass_mirrors hf hcluster hpass
    rw [nextEvent?_congr (isEvent_mirrors hf hd s.pending s.clock)] at hevent
    exact ⟨_, step_eq_ok.2 (.stuck hsome (mt hf.eq_nil_iff.1 hactive) hpass' hevent), rfl, rfl, hd, rfl⟩

/-- Two simulations come to outcomes with the same schedule and the same status. -/
def Agree (result result' : Except LedgerBreach Outcome) : Prop :=
  ∃ outcome outcome', result = .ok outcome ∧ result' = .ok outcome' ∧
    outcome'.schedule = outcome.schedule ∧ outcome'.status = outcome.status

/-- If the active nodes of two lists correspond and the positions decide nothing, the simulations
agree. -/
theorem runPolicy_mirrors {nodes nodes' : List Ledger} {f : Fin nodes.length → Fin nodes'.length}
    (hledger : ∀ i, nodes'[f i] = nodes[i])
    (honto : ∀ j : Fin nodes'.length, nodes'[j].isActive = true → ∃ i, f i = j)
    (hties : StrictMono f ∨ policy.anticipates = false ∧ policy.nodeChoice.ByName ∧
      ∀ i j : Fin nodes.length, i ≠ j → nodes[i].name ≠ nodes[j].name) (pods : List Pod) :
    Agree (runPolicy policy nodes pods) (runPolicy policy nodes' pods) := by
  have hf : Renaming f (activeNodes (positions nodes)) (activeNodes (positions nodes')) := by
    refine ⟨pairwise_activeNodes _, pairwise_activeNodes _, ?_⟩
    intro j
    simp only [mem_activeNodes, getElem_positions]
    constructor
    · intro hj
      obtain ⟨i, rfl⟩ := honto j hj
      exact ⟨i, (congrArg Ledger.isActive (hledger i)).symm.trans hj, rfl⟩
    · rintro ⟨i, hi, rfl⟩
      exact (congrArg Ledger.isActive (hledger i)).trans hi
  have hsound := sound_initial policy (positions nodes) pods
  have hsound' := sound_initial policy (positions nodes') pods
  have hmirrors : (initial policy (positions nodes) pods).Mirrors policy f
      (activeNodes (positions nodes)) (activeNodes (positions nodes'))
      (initial policy (positions nodes') pods) := by
    refine ⟨rfl, rfl, ⟨fun i _ => hledger i, by rw [hsound.mode, hsound'.mode], hsound.queues,
      hsound'.queues, ?_⟩, rfl⟩
    refine hties.imp_right ?_
    rintro ⟨hnow, hname, hnames⟩
    refine ⟨?_, hname, fun i _ j _ hij => hnames i j hij⟩
    rw [initial, hnow]
    rfl
  obtain ⟨s, status, hends, -⟩ := ends_spec policy nodes pods
  obtain ⟨s', status', hends', -⟩ := ends_spec policy nodes' pods
  refine ⟨_, _, hends.runPolicy_eq, hends'.runPolicy_eq, ?_⟩
  -- The limits on the number of passes differ, but neither is reached.
  obtain ⟨t', hsteps, hsame⟩ :=
    steps_simulate (step_mirrors hf) _ hmirrors (steps_of_le (Nat.le_max_left _ _) hends)
  have hsteps' := steps_of_le (Nat.le_max_right (passLimit (positions nodes) pods) _) hends'
  rw [hsteps] at hsteps'
  cases hsteps'
  exact ⟨hsame.schedule, rfl⟩

/-! ### Nodes in another order -/

/-- Among nodes with distinct names, a name belongs to one position. -/
theorem eq_of_name_eq {nodes : List Ledger} (hnames : (nodes.map Ledger.name).Nodup)
    {i j : Fin nodes.length} (h : nodes[i].name = nodes[j].name) : i = j := by
  rw [List.Nodup, List.pairwise_map, List.pairwise_iff_getElem] at hnames
  rcases lt_trichotomy i j with hlt | heq | hlt
  · exact absurd h (hnames i j i.isLt j.isLt hlt)
  · exact heq
  · exact absurd h.symm (hnames j i j.isLt i.isLt hlt)

/-- If names decide between nodes, the nodes may be given in any order. -/
theorem runPolicy_nodes_perm {nodes nodes' : List Ledger} (hnames : (nodes.map Ledger.name).Nodup)
    (hperm : nodes.Perm nodes') (hnow : policy.anticipates = false) (hname : policy.nodeChoice.ByName)
    (pods : List Pod) : Agree (runPolicy policy nodes pods) (runPolicy policy nodes' pods) := by
  have hnames' : (nodes'.map Ledger.name).Nodup := (hperm.map Ledger.name).nodup_iff.1 hnames
  have hmem (i : Fin nodes.length) : ∃ j : Fin nodes'.length, nodes'[j] = nodes[i] := by
    obtain ⟨j, hj, heq⟩ := List.getElem_of_mem (hperm.subset (List.getElem_mem i.isLt))
    exact ⟨⟨j, hj⟩, heq⟩
  choose f hf using hmem
  refine runPolicy_mirrors hf ?_ (.inr ⟨hnow, hname, ?_⟩) pods
  · intro j _
    obtain ⟨i, hi, heq⟩ := List.getElem_of_mem (hperm.symm.subset (List.getElem_mem j.isLt))
    refine ⟨⟨i, hi⟩, eq_of_name_eq hnames' ?_⟩
    rw [hf]
    exact congrArg Ledger.name heq
  · intro i j hij hsame
    exact hij (eq_of_name_eq hnames hsame)

/-- Under the heuristics that compare names in the end, nodes with distinct names may be given in any
order: the schedule and the status are the same. -/
theorem run_nodes_perm {heuristic : Heuristic}
    (hheuristic : heuristic = .leastLoaded ∨ heuristic = .bestFit) {nodes nodes' : List Ledger}
    (hnames : (nodes.map Ledger.name).Nodup) (hperm : nodes.Perm nodes') (pods : List Pod) :
    Agree (run heuristic nodes pods) (run heuristic nodes' pods) := by
  have hnow : heuristic.policy.anticipates = false := by rcases hheuristic with rfl | rfl <;> rfl
  have hname : heuristic.policy.nodeChoice.ByName := by
    rcases hheuristic with rfl | rfl
    · exact .inl rfl
    · exact .inr rfl
  obtain ⟨outcome, outcome', hrun, hrun', hsame⟩ := runPolicy_nodes_perm hnames hperm hnow hname pods
  refine ⟨{ outcome with heuristic? := some heuristic }, { outcome' with heuristic? := some heuristic },
    ?_, ?_, hsame⟩
  · rw [run, hrun]
    rfl
  · rw [run, hrun']
    rfl

/-- Two nodes that are equally good for the first pod may be swapped. -/
theorem run_nodes_perm_swap :
    ([Ledger.idle "b" (.ofCpu 2), .idle "a" (.ofCpu 2)].map Ledger.name).Nodup ∧
      [Ledger.idle "b" (.ofCpu 2), .idle "a" (.ofCpu 2)].Perm
        [.idle "a" (.ofCpu 2), .idle "b" (.ofCpu 2)] ∧
      Agree (run .bestFit [.idle "b" (.ofCpu 2), .idle "a" (.ofCpu 2)] [.ofCores 1 0 10 1, .ofCores 2 5 10 2])
        (run .bestFit [.idle "a" (.ofCpu 2), .idle "b" (.ofCpu 2)] [.ofCores 1 0 10 1, .ofCores 2 5 10 2]) :=
  by
  have hnames : ([Ledger.idle "b" (.ofCpu 2), .idle "a" (.ofCpu 2)].map Ledger.name).Nodup := by decide
  exact ⟨hnames, .swap _ _ [], run_nodes_perm (.inr rfl) hnames (.swap _ _ []) _⟩

-- First fit takes the node that is given first, so there the order matters.
example :
    (run .firstFit [.idle "b" (.ofCpu 2), .idle "a" (.ofCpu 2)] [.ofCores 1 0 10 1]).toOption.map
        Outcome.schedule ≠
      (run .firstFit [.idle "a" (.ofCpu 2), .idle "b" (.ofCpu 2)] [.ofCores 1 0 10 1]).toOption.map
        Outcome.schedule := by decide +kernel

/-! ### Nodes without CPU -/

/-- Nodes without CPU are inserted into a list of nodes, at any positions. -/
inductive Inserts : List Ledger → List Ledger → Prop where
  /-- There are no nodes any more. -/
  | nil : Inserts [] []
  /-- The next node is one of the list. -/
  | keep {nodes nodes' : List Ledger} (l : Ledger) (h : Inserts nodes nodes') :
    Inserts (l :: nodes) (l :: nodes')
  /-- The next node is inserted. -/
  | insert {nodes nodes' : List Ledger} {l : Ledger} (hl : l.isActive = false)
    (h : Inserts nodes nodes') : Inserts nodes (l :: nodes')

/-- The nodes of a list move to later positions, and only nodes without CPU stand at the others. -/
theorem Inserts.exists_positions {nodes nodes' : List Ledger} (h : Inserts nodes nodes') :
    ∃ f : Fin nodes.length → Fin nodes'.length, StrictMono f ∧ (∀ i, nodes'[f i] = nodes[i]) ∧
      ∀ j : Fin nodes'.length, nodes'[j].isActive = true → ∃ i, f i = j := by
  induction h with
  | nil => exact ⟨id, strictMono_id, fun i => rfl, fun j => j.elim0⟩
  | @keep nodes nodes' l _ ih =>
    obtain ⟨f, hmono, hledger, honto⟩ := ih
    refine ⟨Fin.cases 0 fun i => (f i).succ, ?_, ?_, ?_⟩
    · intro i j hij
      cases j using Fin.cases with
      | zero => exact absurd hij (Fin.not_lt_zero i)
      | succ j =>
        cases i using Fin.cases with
        | zero => exact Fin.succ_pos (f j)
        | succ i => exact Fin.succ_lt_succ_iff.2 (hmono (Fin.succ_lt_succ_iff.1 hij))
    · intro i
      cases i using Fin.cases with
      | zero => rfl
      | succ i => exact hledger i
    · intro j
      cases j using Fin.cases with
      | zero => exact fun _ => ⟨0, rfl⟩
      | succ j =>
        intro hj
        obtain ⟨i, hi⟩ := honto j hj
        exact ⟨i.succ, congrArg Fin.succ hi⟩
  | @insert nodes nodes' l hl _ ih =>
    obtain ⟨f, hmono, hledger, honto⟩ := ih
    refine ⟨fun i => (f i).succ, Fin.strictMono_succ.comp hmono, hledger, ?_⟩
    intro j
    cases j using Fin.cases with
    | zero =>
      intro hj
      rw [show (l :: nodes')[(0 : Fin (nodes'.length + 1))] = l from rfl, hl] at hj
      cases hj
    | succ j =>
      intro hj
      obtain ⟨i, hi⟩ := honto j hj
      exact ⟨i, congrArg Fin.succ hi⟩

/-- Under every policy, nodes without CPU may be inserted anywhere: the schedule and the status are the
same. -/
theorem runPolicy_inserts (policy : Policy) {nodes nodes' : List Ledger} (h : Inserts nodes nodes')
    (pods : List Pod) : Agree (runPolicy policy nodes pods) (runPolicy policy nodes' pods) := by
  obtain ⟨f, hmono, hledger, honto⟩ := h.exists_positions
  exact runPolicy_mirrors hledger honto (.inl hmono) pods

/-- A node that has GPUs and no CPU. -/
def gpuNode : Ledger := .idle "gpu" { Resources.ofCpu 0 with gpu := 8 }

/-- The node may be inserted between two nodes that are tried from a queue. -/
theorem runPolicy_inserts_gpuNode :
    Inserts [.idle "a" (.ofCpu 2), .idle "b" (.ofCpu 2)]
        [.idle "a" (.ofCpu 2), gpuNode, .idle "b" (.ofCpu 2)] ∧
      Agree
        (runPolicy Heuristic.shortestJobFirst.policy [.idle "a" (.ofCpu 2), .idle "b" (.ofCpu 2)]
          [.ofCores 1 0 10 1, .ofCores 2 5 10 2])
        (runPolicy Heuristic.shortestJobFirst.policy
          [.idle "a" (.ofCpu 2), gpuNode, .idle "b" (.ofCpu 2)]
          [.ofCores 1 0 10 1, .ofCores 2 5 10 2]) := by
  have hinserts : Inserts [.idle "a" (.ofCpu 2), .idle "b" (.ofCpu 2)]
      [.idle "a" (.ofCpu 2), gpuNode, .idle "b" (.ofCpu 2)] :=
    .keep _ (.insert (by decide +kernel) (.keep _ .nil))
  exact ⟨hinserts, runPolicy_inserts _ hinserts _⟩

end Simulation

end PodPlacement
