import PodPlacement.NodeQueue
import PodPlacement.Pod
import PodPlacement.Text.Blank

/-! # Policies

A policy says in which order jobs and pods are tried and how a node is chosen. The five heuristics are
names for policies. -/

namespace PodPlacement

/-! ### Order of jobs -/

/-- How jobs are arranged before pods are tried. -/
inductive JobOrder where
  /-- As given. -/
  | input
  /-- The smallest job first. -/
  | sizeAscending
  /-- The largest job first. -/
  | sizeDescending
deriving DecidableEq

namespace JobOrder

/-- The jobs in the order of their sizes; jobs of one size keep their order. -/
def sortSizes (order : JobOrder) (sizes : List (String × Seconds)) : List (String × Seconds) :=
  match order with
  | input => sizes
  | sizeAscending => sortBy (compareOn Prod.snd) sizes
  | sizeDescending => sortBy (fun a b => compare b.2 a.2) sizes

/-- Arranges pods job by job; the pods of a job are in the order of their numbers. -/
def arrange (order : JobOrder) (pods : List Pod) : List Pod :=
  -- Sorting is stable, so the second sort keeps the order by number inside each job.
  let byId := sortBy (compareOn Pod.id) pods
  match order with
  | input => byId
  | _ =>
    let jobs := (order.sortSizes (jobSizes byId)).map Prod.fst
    sortBy (compareOn fun p => jobs.idxOf p.job) byId

end JobOrder

/-! ### Order of pods -/

/-- In which order the pods that are ready are tried. -/
inductive PodOrder where
  /-- By submit time, then by number. -/
  | fifo
  /-- The shortest run time first. -/
  | shortestFirst
  /-- The longest run time first. -/
  | longestFirst
deriving DecidableEq

namespace PodOrder

/-- The order in which two pods are tried. -/
def before : PodOrder → Pod → Pod → Ordering
  | fifo => compareLex (compareOn Pod.submit) (compareOn Pod.id)
  | shortestFirst => compareOn Pod.duration
  | longestFirst => fun a b => compare b.duration a.duration

/-- The pods submitted by `clock` with their positions, in the order they are tried. -/
def ready (order : PodOrder) (pending : List Pod) (clock : Seconds) : List (Pod × Nat) :=
  sortBy (fun a b => order.before a.1 b.1)
    (pending.zipIdx.filter fun p => decide (p.1.submit ≤ clock))

/-- The pods submitted by `clock`, in the order they are tried. -/
def readyPods (order : PodOrder) (pending : List Pod) (clock : Seconds) : List Pod :=
  (order.ready pending clock).map Prod.fst

end PodOrder

/-! ### Choice of a node -/

/-- Which of the nodes that admit a pod gets it. -/
inductive NodeChoice where
  /-- The least CPU load, then the name. -/
  | leastLoaded
  /-- The first one. -/
  | firstFit
  /-- The least CPU left over, then the least memory left over, then the name. -/
  | bestFit
  /-- The one that is free earliest, then the most CPU available, then the position. -/
  | earliestFree
deriving DecidableEq

namespace NodeChoice

variable {n : Nat}

/-- The memory left over, which is negative where too little is available. -/
def memoryLeft (l : Ledger) (request : Resources) : Int := l.available.memory.val - request.memory.val

/-- The order of preference between nodes that admit a request. -/
def preference (choice : NodeChoice) (nodes : Nodes n) (request : Resources) :
    Fin n → Fin n → Ordering :=
  match choice with
  | leastLoaded => compareLex (compareOn fun i => nodes[i].cpuLoad) (compareOn fun i => nodes[i].name)
  | firstFit => fun _ _ => .eq
  | bestFit =>
    compareLex (compareOn fun i => nodes[i].available.cpu - request.cpu)
      (compareLex (compareOn fun i => memoryLeft nodes[i] request) (compareOn fun i => nodes[i].name))
  | earliestFree => NodeQueue.searchOrder nodes

/-- The first of the positions that order first. -/
def leastBy? (cmp : Fin n → Fin n → Ordering) : List (Fin n) → Option (Fin n)
  | [] => none
  | i :: is => some (is.foldl (fun least i => if cmp i least = .lt then i else least) i)

/-- Advances the ledgers of the candidates to `clock`. -/
def advanceAll (nodes : Nodes n) (candidates : List (Fin n)) (clock : Seconds) : Nodes n :=
  candidates.foldl (fun nodes (i : Fin n) => nodes.set i (nodes[i].advance clock) i.isLt) nodes

/-- The nodes with the candidates advanced to `clock`, and the candidate that gets the request, if one
of them admits it. -/
def select (choice : NodeChoice) (nodes : Nodes n) (candidates : List (Fin n)) (request : Resources)
    (clock : Seconds) : Nodes n × Option (Fin n) :=
  -- Candidates that are not chosen stay advanced.
  let nodes := advanceAll nodes candidates clock
  let feasible := candidates.filter fun i => (nodes[i].refusal? request).isNone
  (nodes, leastBy? (choice.preference nodes request) feasible)

end NodeChoice

/-! ### Policies and heuristics -/

/-- How pods are ordered and placed. -/
structure Policy where
  /-- The order of jobs. -/
  jobOrder : JobOrder
  /-- The order of ready pods. -/
  podOrder : PodOrder
  /-- The choice of a node for a pod that starts at once. -/
  nodeChoice : NodeChoice
  /-- A pod may be given a start after the clock, on the first node of the queue that admits it then.
  Otherwise a pod starts at the clock or not at all. -/
  anticipates : Bool
deriving DecidableEq

/-- The named policies. -/
inductive Heuristic where
  /-- Least loaded machine first. -/
  | leastLoaded
  /-- First fit. -/
  | firstFit
  /-- Best fit. -/
  | bestFit
  /-- Shortest job first, shortest processing time first. -/
  | shortestJobFirst
  /-- Longest job first, longest processing time first. -/
  | longestJobFirst
deriving DecidableEq

/-- A name that stands for no heuristic. -/
structure UnknownHeuristic where
  /-- The name, trimmed and in small letters. -/
  name : String
deriving DecidableEq

/-- The unknown name and the names there are. -/
def UnknownHeuristic.message (e : UnknownHeuristic) : String :=
  "unknown heuristic: '" ++ e.name ++ "' (valid: llmf, ff, bf, sjf, ljf)"

namespace Heuristic

/-- All heuristics, in the order they are compared in. -/
def all : List Heuristic := [leastLoaded, firstFit, bestFit, shortestJobFirst, longestJobFirst]

/-- The policy of a heuristic. -/
def policy : Heuristic → Policy
  | leastLoaded => ⟨.input, .fifo, .leastLoaded, false⟩
  | firstFit => ⟨.input, .fifo, .firstFit, false⟩
  | bestFit => ⟨.input, .fifo, .bestFit, false⟩
  | shortestJobFirst => ⟨.sizeAscending, .shortestFirst, .earliestFree, true⟩
  | longestJobFirst => ⟨.sizeDescending, .longestFirst, .earliestFree, true⟩

/-- The short name in reports. -/
def label : Heuristic → String
  | leastLoaded => "LLMF"
  | firstFit => "FF"
  | bestFit => "BF"
  | shortestJobFirst => "SJF/SPT"
  | longestJobFirst => "LJF/LPT"

/-- The names a heuristic goes by. -/
def names : Heuristic → List String
  | leastLoaded => ["llmf", "least-loaded", "least_loaded"]
  | firstFit => ["ff", "firstfit", "first-fit", "first_fit"]
  | bestFit => ["bf", "bestfit", "best-fit", "best_fit"]
  | shortestJobFirst => ["sjf", "spt", "sjf-spt", "sjf/spt"]
  | longestJobFirst => ["ljf", "lpt", "ljf-lpt", "ljf/lpt"]

/-- The heuristic of a name; blanks around it and the case of its letters do not matter. -/
def ofName (text : String) : Except UnknownHeuristic Heuristic :=
  let name := String.ofList ((trim text.toList).map Char.toLower)
  match all.find? fun h => h.names.contains name with
  | some h => .ok h
  | none => .error ⟨name⟩

end Heuristic

end PodPlacement
