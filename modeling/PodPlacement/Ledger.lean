import PodPlacement.Heap
import PodPlacement.Refusal

/-! # Node ledgers

A `Ledger` is the account of one node: its capacity, what is available of it, and the pods that run on
it, the next one to finish first. Time enters a ledger only through `advance`, which gives back the
resources of the pods that have finished by an instant, and `assign`, which starts a pod. -/

namespace PodPlacement

/-- Seconds: an instant counted from the start of the simulation, or a duration. -/
abbrev Seconds := Binary64

/-- A pod that holds resources of a node until it finishes. -/
structure RunningPod where
  /-- When it finishes. -/
  finish : Seconds
  /-- The number of the pod. -/
  id : Nat
  /-- What it holds. -/
  request : Resources
deriving DecidableEq

namespace RunningPod

/-- The earlier finish first, then the smaller number. -/
def order : RunningPod → RunningPod → Ordering :=
  compareLex (compareOn RunningPod.finish) (compareOn RunningPod.id)

end RunningPod

/-- The account of one node. -/
structure Ledger where
  /-- The name of the node. -/
  name : String
  /-- What the node has in all. -/
  capacity : Resources
  /-- What of it is not in use. -/
  available : Resources
  /-- The pods that run on the node. -/
  running : Heap RunningPod
  /-- The latest instant the ledger was advanced to. -/
  advancedTo : Seconds

namespace Ledger

/-- The ledger of an idle node. -/
def idle (name : String) (capacity : Resources) : Ledger where
  name := name
  capacity := capacity
  available := capacity
  running := .empty
  advancedTo := 0

instance : Inhabited Ledger := ⟨idle "" .zero⟩

/-- A node takes part in a simulation only if it has CPU. -/
def isActive (l : Ledger) : Bool := decide (0 < l.capacity.cpu)

/-- How many pods run on the node. -/
def runningCount (l : Ledger) : Nat := l.running.size

/-- The sum of what the running pods hold. -/
def inUse (l : Ledger) : Resources := .sum (l.running.toList.map RunningPod.request)

/-- The fraction of the CPU capacity in use; zero for a node without CPU. -/
def cpuLoad (l : Ledger) : Binary64 :=
  if l.capacity.cpu ≤ 0 then 0 else (l.capacity.cpu - l.available.cpu) / l.capacity.cpu

/-- When the next pod finishes; zero for an idle node. -/
def earliestFree (l : Ledger) : Seconds := (l.running.first?.map RunningPod.finish).getD 0

/-- The pods finished by `instant`, and the ones left. -/
def completedBy (l : Ledger) (instant : Seconds) : List RunningPod × Heap RunningPod :=
  l.running.popWhile RunningPod.order fun p => decide (p.finish ≤ instant)

/-- The ledger at `instant`: the pods finished by then have given their resources back. -/
def advance (l : Ledger) (instant : Seconds) : Ledger :=
  let (completed, running) := l.completedBy instant
  { l with
    available := completed.foldl (fun available p => available + p.request) l.available
    running := running
    advancedTo := l.advancedTo.maxNum instant }

/-- Why the node does not admit a request with what is available now. -/
def refusal? (l : Ledger) (request : Resources) : Option Refusal := request.shortage? l.available

/-- The node admits the request at `instant`. -/
def canAdmit (l : Ledger) (request : Resources) (instant : Seconds) : Bool :=
  ((l.advance instant).refusal? request).isNone

/-- Starts a pod on a ledger that was advanced to its start and admits it. -/
def start (l : Ledger) (pod : RunningPod) : Ledger :=
  { l with
    available := l.available - pod.request
    running := l.running.push RunningPod.order pod }

/-- Starts pod `id` at `start` for `duration`: the ledger afterwards, and the instant the pod finishes or
why it was refused. A refused pod leaves the ledger advanced to `start`. -/
def assign (l : Ledger) (id : Nat) (duration : Seconds) (request : Resources) (start : Seconds) :
    Ledger × Except Refusal Seconds :=
  let now := l.advance start
  match now.refusal? request with
  | some refusal => (now, .error refusal)
  | none => (now.start ⟨start + duration, id, request⟩, .ok (start + duration))

/-- The earliest of some instants, if there are any. -/
def earliest? : List Seconds → Option Seconds
  | [] => none
  | t :: ts => some (ts.foldl (fun least t => if (compare t least).isLT then t else least) t)

/-- When the next pod finishes after `instant`, if one does. -/
def nextCompletionAfter (l : Ledger) (instant : Seconds) : Option Seconds :=
  earliest? ((l.running.toList.map RunningPod.finish).filter fun t => decide (instant < t))

/-! ### Order of nodes -/

/-- The node that is free earlier first; of those free at the same instant the one with more CPU
available. -/
def earliestFreeFirst : Ledger → Ledger → Ordering :=
  compareLex (compareOn earliestFree) (fun a b => compare b.available.cpu a.available.cpu)

end Ledger

end PodPlacement
