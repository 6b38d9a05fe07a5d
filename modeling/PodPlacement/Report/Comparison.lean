import PodPlacement.Comparison
import PodPlacement.Report.Alignment

/-! # The report of a comparison

One line for each heuristic. -/

namespace PodPlacement.Report

/-- A line of a comparison: the name of a heuristic and figures to the right of it. -/
def comparisonLine (name : String) (figures : List String) : List Char :=
  Alignment.left.pad 10 name.toList ++
    figures.flatMap fun figure => ' ' :: Alignment.right.pad 12 figure.toList

/-- The line above all others. -/
def comparisonHeading : List Char :=
  comparisonLine "Heuristic" ["Scheduled", "Makespan", "Mean JCT", "Min JCT", "Max JCT"]

/-- The line of a heuristic. Without completed jobs their statistics are shown as zero. -/
def comparisonRow (row : ComparisonRow) : List Char :=
  let figure (pick : CompletionSummary → Seconds) : String :=
    ((row.completion?.map pick).getD 0).fixed 2
  comparisonLine row.heuristic.label
    [toString row.scheduled ++ "/" ++ toString row.total, row.makespan.fixed 2,
      figure CompletionSummary.mean, figure CompletionSummary.min, figure CompletionSummary.max] ++
    if row.completed then [] else "  (aborted)".toList

/-- The report of a comparison. -/
def comparison (rows : List ComparisonRow) : String :=
  let lines := comparisonHeading :: List.replicate 75 '-' :: rows.map comparisonRow
  String.ofList (lines.flatMap fun line => line ++ ['\n'])

end PodPlacement.Report
