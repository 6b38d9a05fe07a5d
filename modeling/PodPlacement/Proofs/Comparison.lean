import PodPlacement.Comparison

/-! # Comparisons

A comparison sums up the simulations of all heuristics and does nothing else.

* `rows_eq` — the rows of a comparison are the summaries of the outcomes, in the order of the
  heuristics, and its notices are those of the outcomes. -/

namespace PodPlacement

namespace Comparison

/-- If every heuristic comes to an outcome, a comparison has the summaries of these outcomes. -/
theorem rows_eq {nodes : List Ledger} {pods : List Pod} {outcome : Heuristic → Simulation.Outcome}
    (h : ∀ heuristic : Heuristic,
      Simulation.runPolicy heuristic.policy nodes pods = .ok (outcome heuristic)) :
    rows nodes pods = .ok
      ⟨Heuristic.all.map fun heuristic => .ofOutcome heuristic (outcome heuristic),
        Heuristic.all.flatMap fun heuristic => (outcome heuristic).notices⟩ := by
  have hrun : (fun heuristic : Heuristic => do
      let o ← Simulation.run heuristic nodes pods
      pure (heuristic, o)) = fun heuristic => (pure (heuristic,
        { outcome heuristic with heuristic? := some heuristic }) : Except LedgerBreach _) := by
    funext heuristic
    rw [Simulation.run, h]
    rfl
  rw [rows, outcomes, hrun, List.mapM_pure]
  rfl

end Comparison

end PodPlacement
