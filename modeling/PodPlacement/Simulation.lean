import PodPlacement.Audit
import PodPlacement.Notice
import PodPlacement.Placement

/-! # The simulation

A simulation repeats a pass over the pods that are ready. A pass that places pods is followed by another
one at the same clock; after a pass that places none the clock moves to the next submission or
completion. It ends when no pod is pending, or when nothing is left to wait for.

* `step` is one pass and what follows from it.
* `run` is the whole simulation. A pass without a placement leaves an instant behind at which a pod is
  submitted or finishes, and a pass with one leaves a pod behind, so the number of passes is bounded by
  `passLimit`. -/

namespace PodPlacement

/-- Why a simulation ends with pods pending. -/
inductive AbortCause where
  /-- No node has CPU. -/
  | noActiveNodes
  /-- Nothing will be submitted and nothing will finish after `clock`. -/
  | noNextEvent (clock : Seconds) (pending : Nat)
deriving DecidableEq

/-- The cause in words. -/
def AbortCause.message : AbortCause → String
  | .noActiveNodes => "no active node with non-zero capacity is available"
  | .noNextEvent clock pending =>
    "no next event can be determined at t=" ++ clock.fixed 2 ++ "s with " ++ toString pending ++
      " pod(s) pending"

/-- How a simulation ended. -/
inductive Status where
  /-- Every pod was placed. -/
  | completed
  /-- Pods were left. -/
  | aborted (cause : AbortCause)
deriving DecidableEq

/-- The status in words. -/
def Status.message : Status → String
  | .completed => "completed"
  | .aborted cause => "aborted: " ++ cause.message

namespace Simulation

variable {n : Nat}

/-- The least the clock moves when no pod could be placed. -/
def clockTick : Seconds := 0.01

/-- A simulation between two passes. -/
structure State (n : Nat) where
  /-- The instant it has reached. -/
  clock : Seconds
  /-- The pods not placed yet. -/
  pending : List Pod
  /-- The nodes. -/
  cluster : Cluster n
  /-- The records so far. -/
  schedule : Schedule

/-- The positions of the nodes that have CPU. -/
def activeNodes (nodes : Nodes n) : List (Fin n) := (List.finRange n).filter fun i => nodes[i].isActive

/-- Tries pods in turn; the cluster and the schedule afterwards, and the numbers of the placed pods. -/
def pass (policy : Policy) (active : List (Fin n)) (clock : Seconds) :
    List Pod → Cluster n → Schedule → Except LedgerBreach (Cluster n × Schedule × List Nat)
  | [], cluster, schedule => .ok (cluster, schedule, [])
  | pod :: pods, cluster, schedule => do
    let (cluster, placement?) ← cluster.place policy.nodeChoice active pod clock
    match placement? with
    | none => pass policy active clock pods cluster schedule
    | some p =>
      let record := Record.ofPod pod cluster.nodes[p.node].name p.start p.finish
      let (cluster, schedule, placed) ← pass policy active clock pods cluster (schedule.push record)
      pure (cluster, schedule, pod.id :: placed)

/-- The next submission after `clock`. -/
def nextSubmit? (pending : List Pod) (clock : Seconds) : Option Seconds :=
  Ledger.earliest? ((pending.map Pod.submit).filter fun t => decide (clock < t))

/-- The next completion on an active node after `clock`. -/
def nextCompletion? (nodes : Nodes n) (active : List (Fin n)) (clock : Seconds) : Option Seconds :=
  Ledger.earliest? (active.filterMap fun i => nodes[i].nextCompletionAfter clock)

/-- The next submission or completion after `clock`. -/
def nextEvent? (pending : List Pod) (nodes : Nodes n) (active : List (Fin n)) (clock : Seconds) :
    Option Seconds :=
  match nextSubmit? pending clock, nextCompletion? nodes active clock with
  | some a, some b => some (a.minNum b)
  | some a, none => some a
  | none, b => b

/-- One pass and what follows from it: the state afterwards, and how the simulation ended if it did. -/
def step (policy : Policy) (active : List (Fin n)) (s : State n) :
    Except LedgerBreach (State n × Option Status) :=
  if s.pending.isEmpty then .ok (s, some .completed)
  else if active.isEmpty then .ok (s, some (.aborted .noActiveNodes))
  else do
    let ready := policy.podOrder.readyPods s.pending s.clock
    let (cluster, schedule, placed) ← pass policy active s.clock ready s.cluster s.schedule
    -- The nodes may have changed even if nothing was placed: ledgers were advanced.
    if placed.isEmpty then
      let s := { s with cluster := cluster, schedule := schedule }
      match nextEvent? s.pending cluster.nodes active s.clock with
      | some event => pure ({ s with clock := event.maxNum (s.clock + clockTick) }, none)
      | none => pure (s, some (.aborted (.noNextEvent s.clock s.pending.length)))
    else
      -- Pods that share a number leave together.
      let pending := s.pending.filter fun p => !placed.contains p.id
      pure ({ s with pending := pending, cluster := cluster, schedule := schedule }, none)

/-- At most `limit` steps: the state afterwards, and how the simulation ended if it did. -/
def steps (policy : Policy) (active : List (Fin n)) :
    (limit : Nat) → State n → Except LedgerBreach (State n × Option Status)
  | 0, s => .ok (s, none)
  | limit + 1, s => do
    match ← step policy active s with
    | (s, none) => steps policy active limit s
    | ended => pure ended

/-- The state before the first pass. -/
def initial (policy : Policy) (nodes : Nodes n) (pods : List Pod) : State n where
  clock := 0
  pending := policy.jobOrder.arrange pods
  cluster :=
    { nodes := nodes
      queue? :=
        if policy.anticipates then some (.ofList (NodeQueue.searchOrder nodes) (activeNodes nodes))
        else none }
  schedule := .empty

/-- No simulation makes more passes: each of `n` pods is submitted, placed and finishes once, and each
pod that runs already finishes once. -/
def passLimit (nodes : Nodes n) (pods : List Pod) : Nat :=
  3 * pods.length + nodes.toList.foldl (fun count l => count + l.runningCount) 0 + 1

/-- What a simulation leaves behind. -/
structure Outcome where
  /-- The heuristic, unless the policy was made by hand. -/
  heuristic? : Option Heuristic
  /-- The policy. -/
  policy : Policy
  /-- The records of the pods placed. -/
  schedule : Schedule
  /-- How it ended. -/
  status : Status
  /-- How many pods there were. -/
  total : Nat
  /-- The nodes at the end. -/
  nodes : List Ledger

/-- Every pod was placed. -/
def Outcome.isComplete (o : Outcome) : Bool := o.status = .completed

/-- Places pods on nodes under a policy. -/
def runPolicy (policy : Policy) (nodes : List Ledger) (pods : List Pod) :
    Except LedgerBreach Outcome := do
  let ledgers : Nodes nodes.length := ⟨nodes.toArray, List.size_toArray⟩
  let (s, status?) ← steps policy (activeNodes ledgers) (passLimit ledgers pods)
    (initial policy ledgers pods)
  -- The limit is never reached, so there is always a status.
  let status := status?.getD (.aborted (.noNextEvent s.clock s.pending.length))
  pure ⟨none, policy, s.schedule, status, pods.length, s.cluster.nodes.toList⟩

/-- Places pods on nodes under a heuristic. -/
def run (heuristic : Heuristic) (nodes : List Ledger) (pods : List Pod) : Except LedgerBreach Outcome :=
  do
  let outcome ← runPolicy heuristic.policy nodes pods
  pure { outcome with heuristic? := some heuristic }

/-- The notices of a simulation: one for each violation the audit finds, and one if pods were left. -/
def Outcome.notices (o : Outcome) : List Notice :=
  (Audit.violations o.schedule o.nodes).map (fun _ => .overCommitted) ++
    if o.isComplete then [] else [.simulationAborted]

end Simulation

end PodPlacement
