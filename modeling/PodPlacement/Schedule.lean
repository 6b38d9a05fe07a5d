import PodPlacement.Pod

/-! # Schedules

A schedule is the list of records of the pods that were placed, in the order they were placed. Its
metrics are the completion time of each job and the makespan, both in seconds from the start. -/

namespace PodPlacement

/-- Where and when a pod ran. -/
structure Record where
  /-- The name of the pod. -/
  pod : String
  /-- The job of the pod. -/
  job : String
  /-- The node it ran on. -/
  node : String
  /-- When it was submitted; it was created at once. -/
  submit : Seconds
  /-- When it started. -/
  start : Seconds
  /-- When it finished. -/
  finish : Seconds
  /-- What it held. -/
  requests : Resources
  /-- What it could use at most. -/
  limits : Resources
deriving DecidableEq

namespace Record

/-- The record of a pod that runs on `node` from `start` to `finish`. -/
def ofPod (p : Pod) (node : String) (start finish : Seconds) : Record :=
  ⟨p.name, p.job, node, p.submit, start, finish, p.requests, p.limits⟩

/-- When the pod was created. -/
def created (r : Record) : Seconds := r.submit

/-- From submission to creation. -/
def waitForCreation (r : Record) : Seconds := r.created - r.submit

/-- From creation to start. -/
def waitForStart (r : Record) : Seconds := r.start - r.created

/-- From submission to start. -/
def wait (r : Record) : Seconds := r.start - r.submit

/-- From start to finish. -/
def runningTime (r : Record) : Seconds := r.finish - r.start

/-- From submission to finish. -/
def totalTime (r : Record) : Seconds := r.finish - r.submit

/-- The pod holds resources of its node at `instant`. -/
def isRunningAt (r : Record) (instant : Seconds) : Bool :=
  decide (r.start ≤ instant) && decide (instant < r.finish)

end Record

/-- The records of the placed pods, in the order they were placed. -/
structure Schedule where
  /-- The records. -/
  records : List Record
deriving DecidableEq

/-- Statistics of the completion times of jobs. -/
structure CompletionSummary where
  /-- The mean completion time. -/
  mean : Seconds
  /-- The least one. -/
  min : Seconds
  /-- The greatest one. -/
  max : Seconds
  /-- The makespan of the schedule. -/
  makespan : Seconds
  /-- The number of jobs. -/
  jobs : Nat
deriving DecidableEq

namespace Schedule

/-- The schedule without records. -/
def empty : Schedule := ⟨[]⟩

instance : Inhabited Schedule := ⟨empty⟩

/-- Adds the record of the pod placed next. -/
def push (s : Schedule) (r : Record) : Schedule := ⟨s.records ++ [r]⟩

/-- How many pods were placed. -/
def size (s : Schedule) : Nat := s.records.length

/-- No pod was placed. -/
def isEmpty (s : Schedule) : Bool := s.records.isEmpty

/-- The latest finish, zero for an empty schedule. -/
def makespan (s : Schedule) : Seconds := (s.records.map Record.finish).foldl Binary64.maxNum 0

/-- The names of the jobs that have records, sorted. -/
def jobs (s : Schedule) : List String := sortBy compare (s.records.map Record.job).eraseDups

/-- The latest of some instants; zero if there are none. -/
def latest : List Seconds → Seconds
  | [] => 0
  | t :: ts => ts.foldl Binary64.maxNum t

/-- The finishes of the records of a job. -/
def finishesOf (s : Schedule) (job : String) : List Seconds :=
  (s.records.filter fun r => r.job = job).map Record.finish

/-- The latest finish of each job, in the order of their names. -/
def completionTimes (s : Schedule) : List (String × Seconds) :=
  s.jobs.map fun job => (job, latest (s.finishesOf job))

/-- The statistics of the completion times, if there are any. -/
def completionSummary? (s : Schedule) : Option CompletionSummary :=
  let times := s.completionTimes.map Prod.snd
  if times.isEmpty then none
  else
    some {
      mean := Binary64.sum times / Binary64.ofNat times.length
      min := times.foldl Binary64.minNum .infinity
      max := times.foldl Binary64.maxNum (-.infinity)
      makespan := s.makespan
      jobs := times.length }

/-- The records sorted by job, then by pod. -/
def sorted (s : Schedule) : List Record :=
  sortBy (compareLex (compareOn Record.job) (compareOn Record.pod)) s.records

/-- The records on a node, in the order they were placed. -/
def recordsOn (s : Schedule) (node : String) : List Record := s.records.filter fun r => r.node = node

end Schedule

end PodPlacement
