import PodPlacement.Schedule

/-! # The audit of a schedule

The ledgers keep every node within its capacity while a schedule is made. The audit checks the same from
the finished schedule alone: use rises only where a record starts, so it is enough to look at those
instants. -/

namespace PodPlacement

/-- A node that holds more than its capacity at an instant. -/
structure Violation where
  /-- The node. -/
  node : String
  /-- The instant. -/
  instant : Seconds
  /-- What its pods hold then. -/
  inUse : Resources
  /-- What it has. -/
  capacity : Resources
deriving DecidableEq

namespace Audit

/-- A list without the elements that equal the one before them. -/
def dropRepeats : List Seconds → List Seconds
  | [] => []
  | t :: ts => t :: go t ts
where
  /-- The elements after the last one kept. -/
  go (last : Seconds) : List Seconds → List Seconds
    | [] => []
    | t :: ts => if last.equals t then go last ts else t :: go t ts

/-- What some records hold in all at an instant. -/
def usage (records : List Record) (instant : Seconds) : Resources :=
  .sum ((records.filter fun r => r.isRunningAt instant).map Record.requests)

/-- The instants at which a node has to be looked at, first to last. -/
def instants (records : List Record) : List Seconds :=
  dropRepeats (sortBy compare (records.map Record.start))

/-- The violations on one node. -/
def violationsOn (schedule : Schedule) (node : Ledger) : List Violation :=
  -- Nodes of one name are not told apart: each of them is charged with all records of the name.
  let records := schedule.recordsOn node.name
  (instants records).filterMap fun instant =>
    let inUse := usage records instant
    if inUse.fitsWithin node.capacity then none
    else some ⟨node.name, instant, inUse, node.capacity⟩

/-- The violations on all nodes. -/
def violations (schedule : Schedule) (nodes : List Ledger) : List Violation :=
  nodes.flatMap (violationsOn schedule)

end Audit

end PodPlacement
