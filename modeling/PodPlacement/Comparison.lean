import PodPlacement.Simulation

/-! # Comparing heuristics

Every heuristic places the same pods on the same nodes; a `ComparisonRow` sums up one of the
simulations. -/

namespace PodPlacement

/-- The summary of one simulation. -/
structure ComparisonRow where
  /-- The heuristic. -/
  heuristic : Heuristic
  /-- Every pod was placed. -/
  completed : Bool
  /-- How many pods were placed. -/
  scheduled : Nat
  /-- How many there were. -/
  total : Nat
  /-- The makespan. -/
  makespan : Seconds
  /-- The statistics of the completion times. -/
  completion? : Option CompletionSummary
deriving DecidableEq

namespace ComparisonRow

/-- The summary of an outcome. -/
def ofOutcome (heuristic : Heuristic) (o : Simulation.Outcome) : ComparisonRow where
  heuristic := heuristic
  completed := o.isComplete
  scheduled := o.schedule.size
  total := o.total
  makespan := o.schedule.makespan
  completion? := o.schedule.completionSummary?

end ComparisonRow

namespace Comparison

/-- The outcome of each heuristic. -/
def outcomes (nodes : List Ledger) (pods : List Pod) :
    Except LedgerBreach (List (Heuristic × Simulation.Outcome)) :=
  Heuristic.all.mapM fun h => do
    let outcome ← Simulation.run h nodes pods
    pure (h, outcome)

/-- The summaries of all heuristics, with the notices of their simulations. -/
def rows (nodes : List Ledger) (pods : List Pod) : Except LedgerBreach (Noted (List ComparisonRow)) :=
  do
  let outcomes ← outcomes nodes pods
  pure ⟨outcomes.map fun (h, o) => .ofOutcome h o, outcomes.flatMap fun (_, o) => o.notices⟩

end Comparison

end PodPlacement
