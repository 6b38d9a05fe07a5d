import PodPlacement.Report.Amount
import PodPlacement.Report.Clock
import PodPlacement.Report.Grid
import PodPlacement.Simulation

/-! # The report of a simulation

The report for readers: a grid of all placed pods by job and name, a grid of the completion times of the
jobs, and the metrics. There is none if one of the grids has no text. -/

namespace PodPlacement.Report

/-- The name of what was simulated. -/
def title (o : Simulation.Outcome) : String := (o.heuristic?.map Heuristic.label).getD "custom"

/-- The columns of the grid of pods. Those that hold durations are moved to the right. -/
def podColumns : Vector Column 18 := #v[
  ⟨"Pod_name", .left⟩, ⟨"Job_name", .left⟩,
  ⟨"Job_submit", .left⟩, ⟨"Pod_create", .left⟩, ⟨"Pod_start", .left⟩, ⟨"Pod_end", .left⟩,
  ⟨"Pod_wait_create", .right⟩, ⟨"Pod_wait_run", .right⟩, ⟨"Pod_wait_total", .right⟩,
  ⟨"Pod_running_time", .right⟩, ⟨"Pod_total_time", .right⟩,
  ⟨"Running node", .left⟩,
  ⟨"Requests_memory", .left⟩, ⟨"Limits_memory", .left⟩,
  ⟨"Requests_cpu", .left⟩, ⟨"Limits_cpu", .left⟩,
  ⟨"Requests_gpu", .left⟩, ⟨"Limits_gpu", .left⟩]

/-- The row of a pod. -/
def podRow (r : Record) : Vector String 18 := #v[
  r.pod, r.job,
  clock r.submit, clock r.created, clock r.start, clock r.finish,
  r.waitForCreation.fixed 1, r.waitForStart.fixed 1, r.wait.fixed 1,
  r.runningTime.fixed 1, r.totalTime.fixed 1,
  r.node,
  mebibytes r.requests.memory, mebibytes r.limits.memory,
  cores r.requests.cpu, cores r.limits.cpu,
  gpus r.requests.gpu, gpus r.limits.gpu]

/-- The grid of the placed pods. -/
def podGrid (s : Schedule) : Grid 18 := ⟨podColumns, s.sorted.map podRow⟩

/-- The grid of the completion times. -/
def jobGrid (s : Schedule) : Grid 2 where
  columns := #v[⟨"Job Name", .left⟩, ⟨"Job Completed Time(s)", .right⟩]
  rows := s.completionTimes.map fun (job, done) => #v[job, done.fixed 2]

/-- The line that counts the pods. -/
def headLine (o : Simulation.Outcome) : String :=
  "Heuristic: " ++ title o ++ "   (" ++ toString o.schedule.size ++ " of " ++ toString o.total ++
    " pods scheduled)\n"

/-- The line of the makespan. -/
def makespanLine (s : Schedule) : String := "Makespan: " ++ s.makespan.fixed 2 ++ " s\n"

/-- The line of the statistics of the completion times, if there are any. -/
def completionLine (s : Schedule) : String :=
  match s.completionSummary? with
  | none => ""
  | some c =>
    "Job completion time (" ++ toString c.jobs ++ " jobs): mean " ++ c.mean.fixed 2 ++ " s, min " ++
      c.min.fixed 2 ++ " s, max " ++ c.max.fixed 2 ++ " s\n"

/-- The line that says why pods were left. -/
def statusLine (o : Simulation.Outcome) : String :=
  if o.isComplete then "" else "Status: " ++ o.status.message ++ "\n"

/-- The report of a simulation, if both grids can be laid out. -/
def table? (o : Simulation.Outcome) : Option String := do
  let pods ← (podGrid o.schedule).text?
  let jobs ← (jobGrid o.schedule).text?
  pure (headLine o ++ pods ++ "\n" ++ jobs ++ "\n" ++ makespanLine o.schedule ++
    completionLine o.schedule ++ statusLine o)

/-- What is written of the report: all of it or nothing. -/
def table (o : Simulation.Outcome) : String := (table? o).getD ""

end PodPlacement.Report
