import PodPlacement.Comparison
import PodPlacement.Report.Table
import PodPlacement.Yaml.Writer

/-! # Reports as YAML documents

The reports of a simulation and of a comparison for programs. Durations are numbers; instants and
amounts are the texts of the report for readers. -/

namespace PodPlacement.Report

open Yaml

/-- A mapping whose keys are strings. -/
def mappingOf (entries : List (String × Node)) : Node :=
  .mapping (entries.map fun (key, value) => (.ofString key, value))

/-- The node of an amount of each resource. -/
def resourcesNode (r : Resources) : Node :=
  mappingOf [("cpu", .ofString (cores r.cpu)), ("memory", .ofString (mebibytes r.memory)),
    ("gpu", .ofNat r.gpu.val)]

/-- The node of a placed pod. -/
def podNode (r : Record) : Node :=
  mappingOf [
    ("pod_name", .ofString r.pod),
    ("job_name", .ofString r.job),
    ("job_submit", .ofString (clock r.submit)),
    ("pod_create", .ofString (clock r.created)),
    ("pod_start", .ofString (clock r.start)),
    ("pod_end", .ofString (clock r.finish)),
    ("pod_wait_create", .ofBinary64 r.waitForCreation),
    ("pod_wait_run", .ofBinary64 r.waitForStart),
    ("pod_wait_total", .ofBinary64 r.wait),
    ("pod_running_time", .ofBinary64 r.runningTime),
    ("pod_total_time", .ofBinary64 r.totalTime),
    ("running_node", .ofString r.node),
    ("requests", resourcesNode r.requests),
    ("limits", resourcesNode r.limits)]

/-- The node of the report of a simulation. -/
def outcomeNode (o : Simulation.Outcome) : Node :=
  mappingOf [
    ("heuristic", .ofString (title o)),
    ("status", .ofString o.status.message),
    ("scheduled", .ofNat o.schedule.size),
    ("total", .ofNat o.total),
    ("makespan", .ofBinary64 o.schedule.makespan),
    ("job_completion_times",
      mappingOf (o.schedule.completionTimes.map fun (job, done) => (job, .ofBinary64 done))),
    ("pods", .sequence (o.schedule.sorted.map podNode))]

/-- The report of a simulation as a YAML document. -/
def outcomeDocument (o : Simulation.Outcome) : String := (outcomeNode o).document

/-- The word for a heuristic in a document. -/
def heuristicWord : Heuristic → String
  | .leastLoaded => "LeastLoaded"
  | .firstFit => "FirstFit"
  | .bestFit => "BestFit"
  | .shortestJobFirst => "ShortestJobFirst"
  | .longestJobFirst => "LongestJobFirst"

/-- The node of the statistics of completion times. -/
def summaryNode (c : CompletionSummary) : Node :=
  mappingOf [("mean", .ofBinary64 c.mean), ("min", .ofBinary64 c.min), ("max", .ofBinary64 c.max),
    ("makespan", .ofBinary64 c.makespan), ("jobs", .ofNat c.jobs)]

/-- The node of a row of a comparison. -/
def rowNode (row : ComparisonRow) : Node :=
  mappingOf [
    ("heuristic", .ofString (heuristicWord row.heuristic)),
    ("completed", .ofBool row.completed),
    ("scheduled", .ofNat row.scheduled),
    ("total", .ofNat row.total),
    ("makespan", .ofBinary64 row.makespan),
    ("jct", (row.completion?.map summaryNode).getD .null)]

/-- The report of a comparison as a YAML document. -/
def comparisonDocument (rows : List ComparisonRow) : String := (Node.sequence (rows.map rowNode)).document

end PodPlacement.Report
