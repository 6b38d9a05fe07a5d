import PodPlacement.CommandLine.Options
import PodPlacement.Manifest.File
import PodPlacement.Report.Comparison
import PodPlacement.Report.Document

/-! # Responses

What the program answers to its options and the files they name: an exit code, an output, and remarks
that are no part of the output. -/

namespace PodPlacement.CommandLine

open Manifest

/-- The answer of the program. -/
structure Response where
  /-- The exit code: 0 if every pod was placed, 1 if nothing could be simulated, 2 if pods were left or
  the arguments make no sense, 101 if the report could not be laid out. -/
  exitCode : UInt8
  /-- What it writes. -/
  output : String
  /-- What it remarks. -/
  remarks : List String

namespace Response

/-- The answer if nothing could be simulated. -/
def failure (message : String) : Response := ⟨1, "", ["ERROR: " ++ message]⟩

/-- The answer with an output. -/
def report (complete : Bool) (output : String) (notices : List Notice) : Response :=
  ⟨if complete then 0 else 2, output, notices.map Notice.line⟩

/-- The answer if a column of the report is wider than the formatter can pad to: the program breaks off
before it writes anything. -/
def breakdown (notices : List Notice) : Response :=
  ⟨101, "", notices.map Notice.line ++ ["Formatting argument out of range"]⟩

/-- How the program is called. -/
def usage : String := "Usage: podsim [OPTIONS] --nodes <NODES> --workload <WORKLOAD>"

/-- The answer to arguments that make no sense. -/
def misuse : Response := ⟨2, "", [usage]⟩

/-- The lines that explain the options. -/
def helpLines : List String := [
  "Offline pod placement simulator for batch-job scheduling heuristics",
  "",
  usage,
  "",
  "Options:",
  "  -n, --nodes <NODES>          YAML file with the cluster node list (`cluster:`)",
  "  -w, --workload <WORKLOAD>    YAML file with the job list (`jobs:`)",
  "  -H, --heuristic <HEURISTIC>  Placement heuristic: llmf, ff, bf, sjf or ljf [default: ljf]",
  "  -c, --compare                Run every heuristic and print a summary comparison instead",
  "  -f, --format <FORMAT>        Output format [default: table] [possible values: table, yaml]",
  "  -h, --help                   Print help"]

/-- The answer to a request for an explanation. -/
def help : Response := ⟨0, String.join (helpLines.map fun line => line ++ "\n"), []⟩

end Response

/-- The output for the comparison of all heuristics. -/
def comparisonOutput (format : OutputFormat) (rows : List ComparisonRow) : String :=
  match format with
  | .table => Report.comparison rows
  | .yaml => Report.comparisonDocument rows

/-- The answer with the report of one simulation. -/
def outcomeResponse (format : OutputFormat) (o : Simulation.Outcome) : Response :=
  match format with
  | .table =>
    if (Report.table? o).isSome then .report o.isComplete (Report.table o) o.notices else .breakdown o.notices
  | .yaml => .report o.isComplete (Report.outcomeDocument o) o.notices

/-- Compares all heuristics. -/
def compareAll (format : OutputFormat) (nodes : List Ledger) (pods : List Pod) : Response :=
  match Comparison.rows nodes pods with
  | .error breach => .failure breach.message
  | .ok rows =>
    .report (rows.value.all ComparisonRow.completed) (comparisonOutput format rows.value) rows.notices

/-- Simulates one heuristic, if the name stands for one. -/
def simulateOne (format : OutputFormat) (heuristic : String) (nodes : List Ledger) (pods : List Pod) :
    Response :=
  match Heuristic.ofName heuristic with
  | .error unknown => .failure unknown.message
  | .ok heuristic =>
    match Simulation.run heuristic nodes pods with
    | .error breach => .failure breach.message
    | .ok outcome => outcomeResponse format outcome

/-- What the program does with its files. The cluster is loaded before the workload, and both are loaded
before the heuristic is looked at. -/
def Options.respond (o : Options) (nodes workload : File) : Response :=
  match ClusterManifest.load nodes with
  | .error e => .failure e.message
  | .ok cluster =>
    match WorkloadManifest.load workload with
    | .error e => .failure e.message
    | .ok manifest =>
      let loaded : Noted (List Ledger × List Pod) := do
        let manifest ← manifest
        let nodes ← cluster.schedulableNodes
        let pods ← manifest.expand
        pure (nodes, pods)
      let (nodes, pods) := loaded.value
      -- A comparison runs all heuristics, so the name of one is not looked at.
      let response :=
        if o.compare then compareAll o.format nodes pods
        else simulateOne o.format o.heuristic nodes pods
      { response with remarks := loaded.notices.map Notice.line ++ response.remarks }

end PodPlacement.CommandLine
