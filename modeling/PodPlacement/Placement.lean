import PodPlacement.Policy
import PodPlacement.Schedule

/-! # Placing one pod

A pod is placed in one of two ways. `placeNow` asks the policy for a node that admits the pod at the
clock. `placeAhead` goes through the node queue and takes the first node that admits the pod at the
instant the node is free. A ledger that was advanced beyond that instant knows nothing of earlier ones,
so the start never precedes it. -/

namespace PodPlacement

/-- A ledger refused a pod that it had just admitted. It stands for a defect of the placement itself and
never depends on the input. -/
structure LedgerBreach where
  /-- The pod. -/
  pod : String
  /-- The node. -/
  node : String
  /-- Why it was refused. -/
  refusal : Refusal
deriving DecidableEq

/-- The breach in words. -/
def LedgerBreach.message (b : LedgerBreach) : String :=
  "ledger invariant violated: pod '" ++ b.pod ++ "' assigned to node '" ++ b.node ++
    "' while infeasible: " ++ b.refusal.message

/-- The node a pod goes to and the time it runs there. -/
structure Placement (n : Nat) where
  /-- The node. -/
  node : Fin n
  /-- When the pod starts. -/
  start : Seconds
  /-- When it finishes. -/
  finish : Seconds
deriving DecidableEq

/-- The nodes of a simulation and, if pods are placed ahead, the queue in which they are tried. -/
structure Cluster (n : Nat) where
  /-- The ledgers. -/
  nodes : Nodes n
  /-- The queue; a policy that does not anticipate has none. -/
  queue? : Option (NodeQueue n)

namespace Cluster

variable {n : Nat}

/-- Starts a pod on a node. -/
def commit (nodes : Nodes n) (i : Fin n) (pod : Pod) (start : Seconds) :
    Except LedgerBreach (Nodes n × Placement n) :=
  match nodes[i].assign pod.id pod.duration pod.requests start with
  | (ledger, .ok finish) => .ok (nodes.set i ledger i.isLt, ⟨i, start, finish⟩)
  | (_, .error refusal) => .error ⟨pod.name, nodes[i].name, refusal⟩

/-- Places a pod at the clock on one of the active nodes, if one admits it. -/
def placeNow (choice : NodeChoice) (active : List (Fin n)) (nodes : Nodes n) (pod : Pod)
    (clock : Seconds) : Except LedgerBreach (Nodes n × Option (Placement n)) :=
  match choice.select nodes active pod.requests clock with
  | (nodes, none) => .ok (nodes, none)
  | (nodes, some i) => do
    let (nodes, placement) ← commit nodes i pod clock
    pure (nodes, some placement)

/-- The earliest start a node offers a pod: when the next pod on it finishes, but not before the clock,
the submission of the pod, or the instant the ledger was advanced to. -/
def startOn (l : Ledger) (pod : Pod) (clock : Seconds) : Seconds :=
  ((l.earliestFree.maxNum clock).maxNum pod.submit).maxNum l.advancedTo

/-- Goes through the queue until a node admits the pod at the start it offers. The nodes that do not
are set aside, advanced to that start, and queued again at the end. -/
def search (pod : Pod) (clock : Seconds) (nodes : Nodes n) (queue : NodeQueue n)
    (setAside : List (Fin n)) :
    Except LedgerBreach (Nodes n × NodeQueue n × Option (Placement n)) :=
  match _hp : queue.pop (NodeQueue.searchOrder nodes) with
  | none => .ok (nodes, queue.pushAll (NodeQueue.searchOrder nodes) setAside, none)
  | some (i, rest) =>
    let start := startOn nodes[i] pod clock
    -- The node is out of the queue while its ledger changes, so the queue stays in order.
    let advanced := nodes.set i (nodes[i].advance start) i.isLt
    if (advanced[i].refusal? pod.requests).isNone then do
      let (nodes, placement) ← commit advanced i pod start
      pure (nodes, rest.pushAll (NodeQueue.searchOrder nodes) (i :: setAside), some placement)
    else search pod clock advanced rest (setAside ++ [i])
termination_by queue.size
decreasing_by
  have := NodeQueue.size_of_pop _ _hp
  omega

/-- Places a pod on the first node of the queue that admits it. -/
def placeAhead (nodes : Nodes n) (queue : NodeQueue n) (pod : Pod) (clock : Seconds) :
    Except LedgerBreach (Nodes n × NodeQueue n × Option (Placement n)) :=
  search pod clock nodes queue []

/-- Places a pod in the way of the cluster, if a node admits it. -/
def place (choice : NodeChoice) (active : List (Fin n)) (c : Cluster n) (pod : Pod)
    (clock : Seconds) : Except LedgerBreach (Cluster n × Option (Placement n)) :=
  match c.queue? with
  | none => do
    let (nodes, placement?) ← placeNow choice active c.nodes pod clock
    pure (⟨nodes, none⟩, placement?)
  | some queue => do
    let (nodes, queue, placement?) ← placeAhead c.nodes queue pod clock
    pure (⟨nodes, some queue⟩, placement?)

end Cluster

end PodPlacement
