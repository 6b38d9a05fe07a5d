import Mathlib.Data.List.Flatten
import Mathlib.Data.List.Forall2
import PodPlacement.Manifest.Workload
import PodPlacement.Proofs.Number.Order

/-! # Expansion of a workload

The pods of a workload are made job by job, task by task and replica by replica, and one counter numbers them
all. Jobs without tasks and tasks without a container are passed over without a gap in the numbers. So the pods
are a numbered list of *slots*: the place of each pod and the template it is made from.

* `expand_eq` — the three nested recursions number the list of slots.
* `mem_slots`, `pairwise_slots` — each replica of a task with a container has one slot, in the order of places.
* `submitTime_spec`, `cpu_toResources`, `leastSeconds_le_runTime` — what is read from labels, quantities and
  commands, whatever they say, is a proper instant, amount or duration.
* `Expansion`, `expansion_expand` — the pods of a workload; more jobs add pods at the end. -/

namespace PodPlacement.Manifest

/-! ### Places -/

/-- Where a pod of a workload comes from. -/
structure Place where
  /-- The position of the job. -/
  job : Nat
  /-- The position of the task in the job. -/
  task : Nat
  /-- The replica of the task. -/
  replica : Nat
deriving DecidableEq

/-- An earlier job comes first, of one job an earlier task, and of one task a smaller replica. -/
def Place.Before (p q : Place) : Prop :=
  p.job < q.job ∨ p.job = q.job ∧ (p.task < q.task ∨ p.task = q.task ∧ p.replica < q.replica)

/-- No place comes before itself. -/
theorem Place.Before.ne {p q : Place} (h : p.Before q) : p ≠ q := by
  rintro rfl
  unfold Before at h
  omega

/-! ### Slots -/

/-- The place of a pod and what it is made from. -/
abbrev Slot := Place × PodTemplate

/-- The slots of a task that stands at a position of its job. -/
def taskSlots (job : JobDefinition) (i : Nat) : TaskDefinition × Nat → List Slot
  | (task, k) =>
    match (task.template? (job.nameAt i) job.namespaceName job.submitTime.value k).value with
    | some template => (List.range task.replicas).map fun r => (⟨i, k, r⟩, template)
    | none => []

/-- The slots of a job that stands at a position of the workload. -/
def jobSlots : JobDefinition × Nat → List Slot
  | (job, i) => job.tasks.zipIdx.flatMap (taskSlots job i)

/-- The slots of a workload. -/
def slots (jobs : List JobDefinition) : List Slot := jobs.zipIdx.flatMap jobSlots

/-- The pods of some slots, numbered from the one after `last`. -/
def number (last : Nat) (ss : List Slot) : List Pod :=
  (ss.zipIdx (last + 1)).map fun s => s.1.2.pod s.2 s.1.1.replica

/-- Each slot gets a pod. -/
@[simp] theorem length_number (last : Nat) (ss : List Slot) : (number last ss).length = ss.length := by
  rw [number, List.length_map, List.length_zipIdx]

/-- Numbering goes on where it stopped. -/
theorem number_append (last : Nat) (ss ss' : List Slot) :
    number last (ss ++ ss') = number last ss ++ number (last + ss.length) ss' := by
  rw [number, List.zipIdx_append, List.map_append, Nat.add_right_comm]
  rfl

/-- The numbers follow each other. -/
theorem map_id_number (last : Nat) (ss : List Slot) :
    (number last ss).map Pod.id = List.range' (last + 1) ss.length := by
  rw [number, List.map_map, ← List.zipIdx_map_snd]
  rfl

/-! ### Expanding is numbering -/

/-- The pods of a task are those of its slots. -/
theorem pods_eq_number (template : PodTemplate) (i k last replicas : Nat) :
    template.pods last replicas =
      number last ((List.range replicas).map fun r => (⟨i, k, r⟩, template)) := by
  induction replicas with
  | zero => rfl
  | succ n ih =>
    rw [PodTemplate.pods] at ih ⊢
    rw [List.range_succ, List.map_append, ih, List.map_append, number_append, List.length_map,
      List.length_range]
    rfl

/-- The pods of the tasks of a job are those of their slots. -/
theorem expandTasks_eq (job : JobDefinition) (i : Nat) (tasks : List TaskDefinition) (k last : Nat) :
    (expandTasks (job.nameAt i) job.namespaceName job.submitTime.value k last tasks).value =
      number last ((tasks.zipIdx k).flatMap (taskSlots job i)) := by
  induction tasks generalizing k last with
  | nil => rfl
  | cons task tasks ih =>
    rw [List.zipIdx_cons, List.flatMap_cons, number_append]
    simp only [expandTasks, Noted.value_bind, Noted.value_pure, ih, taskSlots]
    cases (task.template? (job.nameAt i) job.namespaceName job.submitTime.value k).value with
    | none => rfl
    | some template => simp only [pods_eq_number template i k, length_number]

/-- The pods of a job are those of its slots. -/
theorem expandJob_eq (job : JobDefinition) (i last : Nat) :
    (job.expand i last).value = number last (jobSlots (job, i)) := by
  rw [JobDefinition.expand, Noted.value_bind, jobSlots]
  cases htasks : job.tasks with
  | nil => rfl
  | cons task tasks =>
    rw [← htasks, if_neg (by simp [htasks])]
    exact expandTasks_eq job i job.tasks 0 last

/-- The pods of some jobs are those of their slots. -/
theorem expandFrom_eq (jobs : List JobDefinition) (i last : Nat) :
    (expandFrom i last jobs).value = number last ((jobs.zipIdx i).flatMap jobSlots) := by
  induction jobs generalizing i last with
  | nil => rfl
  | cons job jobs ih =>
    rw [List.zipIdx_cons, List.flatMap_cons, number_append]
    simp only [expandFrom, Noted.value_bind, Noted.value_pure, ih, expandJob_eq, length_number]

/-- The pods of a workload are those of its slots. -/
theorem expand_eq (jobs : List JobDefinition) :
    (WorkloadManifest.expand ⟨jobs⟩).value = number 0 (slots jobs) := expandFrom_eq jobs 0 0

/-! ### Which slots there are -/

/-- The template of a task whose first container is given. -/
def TaskDefinition.templateFrom (d : TaskDefinition) (job : JobDefinition) (place : Place)
    (container : ContainerDefinition) : PodTemplate where
  job := job.nameAt place.job
  namespaceName := job.namespaceName
  label := d.name?.getD "task"
  task := d.name?.getD ("task-" ++ toString place.task)
  submit := job.submitTime.value
  duration := Estimate.runTime container.requests.toResources.value container.command
  requests := container.requests.toResources.value
  limits := container.limits.toResources.value

/-- The template of a task is made from its first container. -/
theorem value_template? (job : JobDefinition) (task : TaskDefinition) (place : Place) :
    (task.template? (job.nameAt place.job) job.namespaceName job.submitTime.value place.task).value =
      task.containers.head?.map (task.templateFrom job place) := by
  rw [TaskDefinition.template?]
  cases task.containers <;> rfl

/-- A place of a workload: the job and the task that stand there, the container that the pods of the task
are made from, and one of its replicas. -/
structure StandsAt (jobs : List JobDefinition) (place : Place) (job : JobDefinition) (task : TaskDefinition)
    (container : ContainerDefinition) : Prop where
  /-- The job stands at its position. -/
  job_eq : jobs[place.job]? = some job
  /-- The task stands at its position of the job. -/
  task_eq : job.tasks[place.task]? = some task
  /-- The task has a container, and this is its first one. -/
  container_eq : task.containers.head? = some container
  /-- The task has that many replicas. -/
  replica_lt : place.replica < task.replicas

variable {jobs : List JobDefinition} {place : Place} {job : JobDefinition} {task : TaskDefinition}
  {container : ContainerDefinition}

/-- The slots of a task are those of its replicas, if it has a container. -/
theorem mem_taskSlots {i k : Nat} {s : Slot} :
    s ∈ taskSlots job i (task, k) ↔ s.1.job = i ∧ s.1.task = k ∧ s.1.replica < task.replicas ∧
      ∃ container, task.containers.head? = some container ∧ s.2 = task.templateFrom job s.1 container := by
  obtain ⟨⟨i', k', r⟩, t⟩ := s
  have hvalue := value_template? job task ⟨i, k, r⟩
  dsimp only at hvalue ⊢
  rw [taskSlots, hvalue]
  cases task.containers.head? with
  | none => simp
  | some container =>
    simp only [Option.map_some, List.mem_map, List.mem_range, Prod.mk.injEq, Place.mk.injEq,
      Option.some.injEq, exists_eq_left']
    constructor
    · rintro ⟨r', hr, ⟨rfl, rfl, rfl⟩, rfl⟩
      exact ⟨rfl, rfl, hr, rfl⟩
    · rintro ⟨rfl, rfl, hr, rfl⟩
      exact ⟨r, hr, ⟨rfl, rfl, rfl⟩, rfl⟩

/-- The slots of a job have its position. -/
theorem job_of_mem_jobSlots {i : Nat} {s : Slot} (h : s ∈ jobSlots (job, i)) : s.1.job = i := by
  obtain ⟨⟨task, k⟩, -, hs⟩ := List.mem_flatMap.1 h
  exact (mem_taskSlots.1 hs).1

/-- Each replica of a task with a container has a slot, and there are no other slots. -/
theorem mem_slots {template : PodTemplate} :
    (place, template) ∈ slots jobs ↔ ∃ job task container,
      StandsAt jobs place job task container ∧ template = task.templateFrom job place container := by
  simp only [slots, jobSlots, List.mem_flatMap, Prod.exists, List.mem_zipIdx_iff_getElem?, mem_taskSlots]
  constructor
  · rintro ⟨job, i, hjob, task, k, htask, rfl, rfl, hr, container, hcontainer, ht⟩
    exact ⟨job, task, container, ⟨hjob, htask, hcontainer, hr⟩, ht⟩
  · rintro ⟨job, task, container, ⟨hjob, htask, hcontainer, hr⟩, ht⟩
    exact ⟨job, place.job, hjob, task, place.task, htask, rfl, rfl, hr, container, hcontainer, ht⟩

/-- The positions of a list grow along it. -/
theorem pairwise_zipIdx {α : Type} (l : List α) : l.zipIdx.Pairwise fun a b => a.2 < b.2 := by
  rw [← List.pairwise_map, List.zipIdx_map_snd]
  exact List.pairwise_lt_range'

/-- The slots of a task come in the order of its replicas. -/
theorem pairwise_taskSlots (job : JobDefinition) (i : Nat) (a : TaskDefinition × Nat) :
    (taskSlots job i a).Pairwise fun s s' => s.1.Before s'.1 := by
  obtain ⟨task, k⟩ := a
  rw [taskSlots]
  split
  · refine List.pairwise_map.2 (List.pairwise_lt_range.imp ?_)
    intro r r' hr
    exact .inr ⟨rfl, .inr ⟨rfl, hr⟩⟩
  · exact .nil

/-- The slots of a job come in the order of its tasks. -/
theorem pairwise_jobSlots (a : JobDefinition × Nat) :
    (jobSlots a).Pairwise fun s s' => s.1.Before s'.1 := by
  obtain ⟨job, i⟩ := a
  rw [jobSlots, List.pairwise_flatMap]
  refine ⟨fun b _ => pairwise_taskSlots job i b, (pairwise_zipIdx job.tasks).imp ?_⟩
  rintro ⟨task, k⟩ ⟨task', k'⟩ hk s hs s' hs'
  obtain ⟨hi, rfl, -⟩ := mem_taskSlots.1 hs
  obtain ⟨hi', rfl, -⟩ := mem_taskSlots.1 hs'
  exact .inr ⟨hi.trans hi'.symm, .inl hk⟩

/-- The slots come in the order of their places. -/
theorem pairwise_slots (jobs : List JobDefinition) :
    (slots jobs).Pairwise fun s s' => s.1.Before s'.1 := by
  rw [slots, List.pairwise_flatMap]
  refine ⟨fun a _ => pairwise_jobSlots a, (pairwise_zipIdx jobs).imp ?_⟩
  rintro ⟨job, i⟩ ⟨job', i'⟩ hi s hs s' hs'
  obtain rfl := job_of_mem_jobSlots hs
  obtain rfl := job_of_mem_jobSlots hs'
  exact .inl hi

/-- Jobs at the end of a workload have their slots at the end. -/
theorem slots_prefix_append (jobs more : List JobDefinition) : slots jobs <+: slots (jobs ++ more) := by
  rw [slots, slots, List.zipIdx_append, List.flatMap_append]
  exact List.prefix_append _ _

/-! ### What is read from a manifest -/

/-- Whatever the labels say, a job is submitted at a finite instant from zero on. -/
theorem submitTime_spec (job : JobDefinition) :
    job.submitTime.value.isFinite = true ∧ 0 ≤ job.submitTime.value := by
  have hzero : (0 : Seconds).isFinite = true ∧ (0 : Seconds) ≤ 0 := by decide +kernel
  rw [JobDefinition.submitTime]
  split
  · exact hzero
  · split
    · rename_i t ht
      have hfilter := (Option.filter_eq_some_iff.1 ht).2
      rw [Bool.and_eq_true, decide_eq_true_eq] at hfilter
      exact hfilter
    · exact hzero

/-- Whatever the quantities say, they amount to CPU from zero on. -/
theorem cpu_toResources (r : ResourceList) : 0 ≤ r.toResources.value.cpu := Binary64.le_maxNum_right _ rfl

/-- Whatever the command says, a pod runs for the least duration or longer. -/
theorem leastSeconds_le_runTime (requests : Resources) (command : List String) :
    Estimate.leastSeconds ≤ Estimate.runTime requests command := Binary64.le_maxNum_right _ rfl

/-! ### The pods of a workload -/

/-- A pod is the replica at a place: its texts are those of the job and the task, and its amounts are read
from the container. -/
structure Describes (place : Place) (job : JobDefinition) (task : TaskDefinition)
    (container : ContainerDefinition) (pod : Pod) : Prop where
  /-- The name joins the namespace, the job, the task and the replica. -/
  name_eq : pod.name = job.namespaceName ++ "-" ++ job.nameAt place.job ++ "-" ++ task.name?.getD "task" ++ "-" ++
    toString place.replica
  /-- The pod belongs to the job. -/
  job_eq : pod.job = job.nameAt place.job
  /-- A task without a name goes by its position. -/
  task_eq : pod.task = task.name?.getD ("task-" ++ toString place.task)
  /-- The pod is this replica of the task. -/
  replica_eq : pod.replica = place.replica
  /-- It is submitted with its job. -/
  submit_eq : pod.submit = job.submitTime.value
  /-- It holds what the container requests. -/
  requests_eq : pod.requests = container.requests.toResources.value
  /-- It may use what the container may use. -/
  limits_eq : pod.limits = container.limits.toResources.value
  /-- It runs as long as its requests and the command of the container let expect. -/
  duration_eq : pod.duration = Estimate.runTime pod.requests container.command

/-- The amounts of a pod are ones that a simulation can work with. -/
structure Proper (pod : Pod) : Prop where
  /-- The pod is submitted at a finite instant from zero on. -/
  submit : pod.submit.isFinite = true ∧ 0 ≤ pod.submit
  /-- It runs for half a minute or longer. -/
  duration : pod.duration.isNaN = false ∧ 30 ≤ pod.duration
  /-- It requests no negative amount of CPU. -/
  requests : pod.requests.cpu.isNaN = false ∧ 0 ≤ pod.requests.cpu
  /-- Neither is its limit negative. -/
  limits : pod.limits.cpu.isNaN = false ∧ 0 ≤ pod.limits.cpu

/-- The pod of a slot is the replica at its place. -/
theorem describes_pod (place : Place) (id : Nat) :
    Describes place job task container ((task.templateFrom job place container).pod id place.replica) :=
  ⟨rfl, rfl, rfl, rfl, rfl, rfl, rfl, rfl⟩

/-- What stands at a place gives a proper pod. -/
theorem Describes.proper {pod : Pod} (h : Describes place job task container pod) : Proper pod := by
  have number {x y : Binary64} (hle : x ≤ y) : y.isNaN = false ∧ x ≤ y :=
    ⟨Binary64.isNaN_of_le_right hle, hle⟩
  refine ⟨?_, number ?_, number ?_, number ?_⟩
  · rw [h.submit_eq]
    exact submitTime_spec job
  · rw [h.duration_eq]
    exact leastSeconds_le_runTime _ _
  · rw [h.requests_eq]
    exact cpu_toResources _
  · rw [h.limits_eq]
    exact cpu_toResources _

/-- A pod is the replica at a place of a workload. -/
def MadeFrom (jobs : List JobDefinition) (place : Place) (pod : Pod) : Prop :=
  ∃ job task container, StandsAt jobs place job task container ∧ Describes place job task container pod

/-- The pods of a workload. -/
structure Expansion (jobs : List JobDefinition) (pods : List Pod) : Prop where
  /-- In the order of places there is one pod for each replica of each task with a container, and no other. -/
  places : ∃ places : List Place, places.Pairwise Place.Before ∧
    (∀ place, place ∈ places ↔ ∃ job task container, StandsAt jobs place job task container) ∧
    List.Forall₂ (MadeFrom jobs) places pods
  /-- The pods are numbered from one. -/
  ids : pods.map Pod.id = List.range' 1 pods.length
  /-- Their amounts are proper. -/
  proper : ∀ pod ∈ pods, Proper pod

/-- Each slot of a workload has a pod that is the replica at its place. -/
theorem forall₂_number {ss : List Slot} (h : ∀ s ∈ ss, s ∈ slots jobs) (last : Nat) :
    List.Forall₂ (MadeFrom jobs) (ss.map Prod.fst) (number last ss) := by
  induction ss generalizing last with
  | nil => exact .nil
  | cons s ss ih =>
    obtain ⟨job, task, container, hstands, ht⟩ := mem_slots.1 (h s List.mem_cons_self)
    refine .cons ⟨job, task, container, hstands, ?_⟩ (ih (fun s' hs' => h s' (List.mem_cons_of_mem _ hs')) _)
    dsimp only
    rw [ht]
    exact describes_pod _ _

/-- Expanding a workload gives one proper pod for each replica of each task with a container, in order and
numbered from one, and more jobs add pods at the end. -/
theorem expansion_expand (jobs more : List JobDefinition) :
    Expansion jobs (WorkloadManifest.expand ⟨jobs⟩).value ∧
      (WorkloadManifest.expand ⟨jobs⟩).value <+: (WorkloadManifest.expand ⟨jobs ++ more⟩).value := by
  rw [expand_eq, expand_eq]
  have hpods : List.Forall₂ (MadeFrom jobs) ((slots jobs).map Prod.fst) (number 0 (slots jobs)) :=
    forall₂_number (fun _ hs => hs) 0
  refine ⟨⟨⟨(slots jobs).map Prod.fst, List.pairwise_map.2 (pairwise_slots jobs), ?_, hpods⟩, ?_, ?_⟩, ?_⟩
  · intro place
    constructor
    · intro hplace
      obtain ⟨s, hs, rfl⟩ := List.mem_map.1 hplace
      obtain ⟨job, task, container, hstands, -⟩ := mem_slots.1 hs
      exact ⟨job, task, container, hstands⟩
    · rintro ⟨job, task, container, hstands⟩
      exact List.mem_map.2
        ⟨(place, task.templateFrom job place container), mem_slots.2 ⟨job, task, container, hstands, rfl⟩, rfl⟩
  · rw [map_id_number, length_number]
  · have hproper : List.Forall₂ (fun pod place => Proper pod ∧ MadeFrom jobs place pod) _ _ :=
      hpods.flip.imp fun _ _ ⟨job, task, container, hstands, hdescribes⟩ =>
        ⟨hdescribes.proper, job, task, container, hstands, hdescribes⟩
    exact ((List.forall₂_and_left _ _).1 hproper).1
  · obtain ⟨others, hothers⟩ := slots_prefix_append jobs more
    rw [← hothers, number_append]
    exact List.prefix_append _ _

end PodPlacement.Manifest
