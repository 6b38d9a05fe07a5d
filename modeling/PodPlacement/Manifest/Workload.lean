import PodPlacement.Estimate
import PodPlacement.Manifest.ResourceList
import PodPlacement.Pod

/-! # Workload manifests

A workload manifest lists jobs, a job has tasks, and a task is replicated into pods. `expand` makes the
pods, numbered from one in the order of the manifest. -/

namespace PodPlacement.Manifest

/-- What a label can say. -/
inductive LabelValue where
  /-- A number. -/
  | number (value : Binary64)
  /-- A text. -/
  | text (raw : String)
  /-- Anything else. -/
  | other
deriving DecidableEq

/-- The definition of a container. -/
structure ContainerDefinition where
  /-- The tokens of the command that are strings. -/
  command : List String := []
  /-- What the container requests. -/
  requests : ResourceList := {}
  /-- What it may use at most. -/
  limits : ResourceList := {}
deriving DecidableEq

/-- The definition of a task. -/
structure TaskDefinition where
  /-- How many pods the task has. -/
  replicas : Nat := 1
  /-- The name, if one is given. -/
  name? : Option String := none
  /-- The containers of each pod; only the first one counts. -/
  containers : List ContainerDefinition := []
deriving DecidableEq

/-- The definition of a job. -/
structure JobDefinition where
  /-- The name, if one is given. -/
  name? : Option String := none
  /-- The namespace. -/
  namespaceName : String := "default"
  /-- The labels in the order of the manifest. -/
  labels : List (String × LabelValue) := []
  /-- The tasks, if the job has a specification. -/
  tasks? : Option (List TaskDefinition) := none
deriving DecidableEq

/-! ### Reading -/

namespace ContainerDefinition

/-- The text of a value that is a string, whatever its tag. -/
def token? (value : Yaml.Value) : Option String :=
  match value.bare with
  | .scalar (.string text) => some text
  | _ => none

/-- The collections around a token of a command: the document, the list of jobs, the job and its
specification, the list of tasks, the task, its template and the specification of that, the list of
containers, the container and the command. -/
def tokenDepth : Nat := 11

/-- Reads the definition of a container. -/
def ofNode? (node : Yaml.Node) : Option ContainerDefinition := do
  let fields ← fields? node
  let command ← fields.read? "command" [] (list? (value? tokenDepth))
  let (requests, limits) ← fields.read? "resources" ({}, {}) fun node => do
    let fields ← fields? node
    let requests ← fields.read? "requests" {} ResourceList.ofNode?
    let limits ← fields.read? "limits" {} ResourceList.ofNode?
    pure (requests, limits)
  pure ⟨command.filterMap token?, requests, limits⟩

end ContainerDefinition

namespace TaskDefinition

/-- Reads the definition of a task. -/
def ofNode? (node : Yaml.Node) : Option TaskDefinition := do
  let fields ← fields? node
  let replicas ← fields.read? "replicas" 1 count?
  let name? ← fields.read? "name" none (optional? text?)
  let containers ← fields.read? "template" [] fun node => do
    let fields ← fields? node
    fields.read? "spec" [] fun node => do
      let fields ← fields? node
      fields.read? "containers" [] (list? ContainerDefinition.ofNode?)
  pure ⟨replicas, name?, containers⟩

end TaskDefinition

namespace LabelValue

/-- What a value says as a label. A value with a tag says nothing. -/
def ofValue : Yaml.Value → LabelValue
  | .scalar (.integer n) => .number (.ofInt n)
  | .scalar (.float x) => .number x
  | .scalar (.string raw) => .text raw
  | _ => .other

end LabelValue

namespace JobDefinition

/-- The collections around a label: the document, the list of jobs, the job, its metadata and the
labels. -/
def labelDepth : Nat := 5

/-- Reads labels, whose values may be anything. -/
def labels? (node : Yaml.Node) : Option (List (String × LabelValue)) := do
  let fields ← fields? node
  fields.mapM fun (key, node) => do
    let value ← value? labelDepth node
    pure (key, .ofValue value)

/-- Reads the definition of a job. -/
def ofNode? (node : Yaml.Node) : Option JobDefinition := do
  let fields ← fields? node
  let (name?, namespaceName, labels) ← fields.read? "metadata" (none, "default", []) fun node => do
    let fields ← fields? node
    let name? ← fields.read? "name" none (optional? text?)
    let namespaceName ← fields.read? "namespace" "default" text?
    let labels ← fields.read? "labels" [] labels?
    pure (name?, namespaceName, labels)
  -- A job without a specification has no tasks, and neither has one whose specification is null.
  let tasks? ← fields.read? "spec" none (optional? fun node => do
    let fields ← fields? node
    fields.read? "tasks" [] (list? TaskDefinition.ofNode?))
  pure ⟨name?, namespaceName, labels, tasks?⟩

/-- The name of the job at a position of the manifest. -/
def nameAt (d : JobDefinition) (position : Nat) : String :=
  d.name?.getD ("job-" ++ toString position)

/-- The label that holds the submit time. -/
def submitLabel : String := "sub-time"

/-- The last value given for a label. -/
def label? (d : JobDefinition) (key : String) : Option LabelValue :=
  (d.labels.reverse.find? fun l => l.1 = key).map Prod.snd

/-- The names of the labels, sorted. -/
def labelNames (d : JobDefinition) : List String := sortBy compare (d.labels.map Prod.fst).eraseDups

/-- The seconds a label stands for, if it stands for a finite number that is not negative. -/
def seconds? (label : LabelValue) : Option Seconds :=
  let value? := match label with
    | .number x => some x
    | .text raw => Binary64.ofText? (trim raw.toList)
    | .other => none
  value?.filter fun t => t.isFinite && decide (0 ≤ t)

/-- When the job is submitted. Without a label that is at the start, and so it is with a notice if the
label cannot be read. -/
def submitTime (d : JobDefinition) : Noted Seconds :=
  match d.label? submitLabel with
  | none => pure 0
  | some label =>
    match seconds? label with
    -- A label that is not a number, or a negative or infinite one, is as good as none.
    | some t => pure t
    | none => do
      Noted.note .malformedSubmitTime
      pure 0

/-- The tasks of the job. -/
def tasks (d : JobDefinition) : List TaskDefinition := d.tasks?.getD []

end JobDefinition

/-! ### Expansion -/

/-- What the pods of a task share. -/
structure PodTemplate where
  /-- The job. -/
  job : String
  /-- The namespace of the job. -/
  namespaceName : String
  /-- The part of the pod names that stands for the task. -/
  label : String
  /-- The name of the task. -/
  task : String
  /-- When the job is submitted. -/
  submit : Seconds
  /-- How long each pod runs. -/
  duration : Seconds
  /-- What each pod holds. -/
  requests : Resources
  /-- What each pod may use at most. -/
  limits : Resources
deriving DecidableEq

/-- The pod of a replica. -/
def PodTemplate.pod (t : PodTemplate) (id replica : Nat) : Pod where
  id := id
  name := t.namespaceName ++ "-" ++ t.job ++ "-" ++ t.label ++ "-" ++ toString replica
  job := t.job
  task := t.task
  replica := replica
  submit := t.submit
  duration := t.duration
  requests := t.requests
  limits := t.limits

/-- The pods of all replicas, numbered from the one after `last`. -/
def PodTemplate.pods (t : PodTemplate) (last replicas : Nat) : List Pod :=
  (List.range replicas).map fun replica => t.pod (last + replica + 1) replica

/-- The template of a task at a position of its job; a task without a container has none. -/
def TaskDefinition.template? (d : TaskDefinition) (job namespaceName : String) (submit : Seconds)
    (position : Nat) : Noted (Option PodTemplate) :=
  match d.containers with
  | [] => do
    Noted.note .taskWithoutContainer
    pure none
  | container :: _ => do
    let requests ← container.requests.toResources
    let limits ← container.limits.toResources
    pure (some
      { job := job
        namespaceName := namespaceName
        label := d.name?.getD "task"
        task := d.name?.getD ("task-" ++ toString position)
        submit := submit
        duration := Estimate.runTime requests container.command
        requests := requests
        limits := limits })

/-- The pods of the tasks from a position on, numbered from the one after `last`. -/
def expandTasks (job namespaceName : String) (submit : Seconds) :
    (position last : Nat) → List TaskDefinition → Noted (List Pod)
  | _, _, [] => pure []
  | position, last, task :: tasks => do
    let template? ← task.template? job namespaceName submit position
    let pods := match template? with
      | some t => t.pods last task.replicas
      | none => []
    let others ← expandTasks job namespaceName submit (position + 1) (last + pods.length) tasks
    pure (pods ++ others)

/-- The pods of a job at a position of the manifest, numbered from the one after `last`. -/
def JobDefinition.expand (d : JobDefinition) (position last : Nat) : Noted (List Pod) := do
  let submit ← d.submitTime
  if d.tasks.isEmpty then
    Noted.note .jobWithoutTasks
    pure []
  else expandTasks (d.nameAt position) d.namespaceName submit 0 last d.tasks

/-- The pods of the jobs from a position on, numbered from the one after `last`. -/
def expandFrom : (position last : Nat) → List JobDefinition → Noted (List Pod)
  | _, _, [] => pure []
  | position, last, job :: jobs => do
    let pods ← job.expand position last
    let others ← expandFrom (position + 1) (last + pods.length) jobs
    pure (pods ++ others)

/-- The jobs of a workload, as defined. -/
structure WorkloadManifest where
  /-- The definitions. -/
  jobs : List JobDefinition
deriving DecidableEq

namespace WorkloadManifest

/-- Reads a workload manifest from a tree. -/
def ofNode? (node : Yaml.Node) : Option WorkloadManifest := do
  let fields ← fields? node
  let jobs ← fields.read? "jobs" [] (list? JobDefinition.ofNode?)
  pure ⟨jobs⟩

/-- Reads a workload manifest from a text. -/
def ofText? (text : String) : Option WorkloadManifest := (Yaml.Node.ofText? text).bind ofNode?

/-- All pods, in the order of the manifest. -/
def expand (m : WorkloadManifest) : Noted (List Pod) := expandFrom 0 0 m.jobs

end WorkloadManifest

end PodPlacement.Manifest
