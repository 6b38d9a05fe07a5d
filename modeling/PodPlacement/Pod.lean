import PodPlacement.Ledger
import PodPlacement.Sorting

/-! # Pods

One replica of a task of a job, as the simulation sees it, and the sizes of jobs. -/

namespace PodPlacement

/-- A pod to be placed. -/
structure Pod where
  /-- The number of the pod in the order of the workload, from one. -/
  id : Nat
  /-- The full name. -/
  name : String
  /-- The job the pod belongs to. -/
  job : String
  /-- The task of the job. -/
  task : String
  /-- Which replica of the task this is. -/
  replica : Nat
  /-- When the job is submitted. -/
  submit : Seconds
  /-- How long the pod runs. -/
  duration : Seconds
  /-- What the pod holds while it runs. -/
  requests : Resources
  /-- What the pod may use at most; it plays no part in the placement. -/
  limits : Resources
deriving DecidableEq

/-- Adds a pod's duration to the size of its job; a new job goes to the end. -/
def addJobSize : List (String × Seconds) → Pod → List (String × Seconds)
  | [], p => [(p.job, p.duration)]
  | (job, size) :: rest, p =>
    if job = p.job then (job, size + p.duration) :: rest else (job, size) :: addJobSize rest p

/-- The size of each job, the sum of the durations of its pods, in order of first appearance. -/
def jobSizes (pods : List Pod) : List (String × Seconds) := pods.foldl addJobSize []

end PodPlacement
