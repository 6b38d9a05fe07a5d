import Mathlib.Data.List.Nodup
import PodPlacement.Proofs.Expansion

/-! # Names of pods

The name of a pod joins its namespace, its job, its task and its replica by dashes, and each of the first three
may hold dashes itself. The replica is digits only, so a name always tells the replica and the rest, the *stem*.
A stem tells its parts only as far as no namespace or job name goes on with a dash after another one.

* `join_eq_join` — two ways to join a text by a dash: the same, or one first part goes on after the other.
* `name_pod_eq_iff` — pods have the same name exactly if they share the stem and the replica.
* `pairwise_label_ne`, `position_eq_of_label_eq` — the tasks of a job with pods are told apart by their labels.
* `overlaps_of_stem_eq` — jobs of distinct names share a stem only if one of them overlaps the other.
* `nodup_names_iff`, `nodup_names_expand` — when the names of all pods are distinct.
* `not_nodup_lookalikes` — distinct names of jobs and tasks are not enough. -/

namespace PodPlacement.Manifest

/-! ### Texts joined by a dash -/

/-- The first text goes on with a dash after the second one. -/
def Extends (a b : String) : Prop := ∃ rest, a = b ++ "-" ++ rest

instance (a b : String) : Decidable (Extends a b) :=
  decidable_of_iff ((b ++ "-").toList <+: a.toList) <| by
    constructor
    · rintro ⟨rest, hrest⟩
      exact ⟨String.ofList rest, String.toList_inj.1 (by simp [← hrest])⟩
    · rintro ⟨rest, rfl⟩
      exact ⟨rest.toList, by simp⟩

/-- Texts joined by a dash are the same if both parts are, or the first part of one goes on after the first
part of the other and the second parts make up for it. -/
theorem join_eq_join {a b x y : String} (h : a ++ "-" ++ x = b ++ "-" ++ y) :
    a = b ∧ x = y ∨ (∃ rest, a = b ++ "-" ++ rest ∧ y = rest ++ "-" ++ x) ∨
      ∃ rest, b = a ++ "-" ++ rest ∧ x = rest ++ "-" ++ y := by
  have hlist : a.toList ++ '-' :: x.toList = b.toList ++ '-' :: y.toList := by
    simpa using congrArg String.toList h
  rcases List.append_eq_append_iff.1 hlist with ⟨cs, hb, hx⟩ | ⟨cs, ha, hy⟩
  · cases cs with
    | nil =>
      refine .inl ⟨String.toList_inj.1 (by simpa using hb.symm), String.toList_inj.1 ?_⟩
      simpa using hx
    | cons c cs =>
      rw [List.cons_append, List.cons.injEq] at hx
      obtain ⟨rfl, hx⟩ := hx
      refine .inr (.inr ⟨String.ofList cs, String.toList_inj.1 ?_, String.toList_inj.1 ?_⟩)
      · simp [hb]
      · simp [hx]
  · cases cs with
    | nil =>
      refine .inl ⟨String.toList_inj.1 (by simpa using ha), String.toList_inj.1 ?_⟩
      simpa using hy.symm
    | cons c cs =>
      rw [List.cons_append, List.cons.injEq] at hy
      obtain ⟨rfl, hy⟩ := hy
      refine .inr (.inl ⟨String.ofList cs, String.toList_inj.1 ?_, String.toList_inj.1 ?_⟩)
      · simp [ha]
      · simp [hy]

/-- The digits of a number hold no dash. -/
theorem toString_ne_join (n : Nat) (rest x : String) : toString n ≠ rest ++ "-" ++ x := by
  intro h
  have hmem : '-' ∈ (toString n).toList := by simp [h]
  rw [Nat.toString_eq_repr, Nat.toList_repr] at hmem
  exact absurd (Nat.isDigit_of_mem_toDigits (by omega) (by omega) hmem) (by decide)

/-- Numbers with the same digits are the same. -/
theorem toString_inj {m n : Nat} (h : toString m = toString n) : m = n := by
  have hdigits : Nat.toDigits 10 m = Nat.toDigits 10 n := by
    simpa only [Nat.toString_eq_repr, Nat.toList_repr] using congrArg String.toList h
  rw [← Nat.ofDigitChars_ten_toDigits (n := m), hdigits, Nat.ofDigitChars_ten_toDigits]

/-- A text and a number joined by a dash tell both. -/
theorem join_toString_inj {a b : String} {m n : Nat} :
    a ++ "-" ++ toString m = b ++ "-" ++ toString n ↔ a = b ∧ m = n := by
  constructor
  · intro h
    rcases join_eq_join h with ⟨hab, hmn⟩ | ⟨rest, -, hrest⟩ | ⟨rest, -, hrest⟩
    · exact ⟨hab, toString_inj hmn⟩
    · exact absurd hrest (toString_ne_join n rest _)
    · exact absurd hrest (toString_ne_join m rest _)
  · rintro ⟨rfl, rfl⟩
    rfl

/-! ### Stems -/

/-- What stands for a task in the names of its pods. -/
def TaskDefinition.label (d : TaskDefinition) : String := d.name?.getD "task"

/-- All tasks without a name have one label. -/
theorem label_of_name?_eq_none {d : TaskDefinition} (h : d.name? = none) : d.label = "task" := by
  rw [TaskDefinition.label, h, Option.getD_none]

/-- The task has pods: a container and a replica. -/
def TaskDefinition.HasPods (d : TaskDefinition) : Prop := d.containers ≠ [] ∧ 0 < d.replicas

instance (d : TaskDefinition) : Decidable d.HasPods := inferInstanceAs (Decidable (_ ∧ _))

/-- The names of the pods of a task up to the replica. -/
def JobDefinition.stem (d : JobDefinition) (position : Nat) (task : TaskDefinition) : String :=
  d.namespaceName ++ "-" ++ d.nameAt position ++ "-" ++ task.label

/-- A task of the job at a position has pods, and this is their stem. -/
def HasStem (jobs : List JobDefinition) (position : Nat) (stem : String) : Prop :=
  ∃ job task, jobs[position]? = some job ∧ task ∈ job.tasks ∧ task.HasPods ∧ job.stem position task = stem

/-- The name of the pod of a slot. -/
def slotName (s : Slot) : String :=
  s.2.namespaceName ++ "-" ++ s.2.job ++ "-" ++ s.2.label ++ "-" ++ toString s.1.replica

/-- The names of the pods of a workload are those of its slots. -/
theorem map_name_expand (jobs : List JobDefinition) :
    (WorkloadManifest.expand ⟨jobs⟩).value.map Pod.name = (slots jobs).map slotName := by
  conv_rhs => rw [← List.zipIdx_map_fst 1 (slots jobs)]
  rw [expand_eq, number, List.map_map, List.map_map]
  rfl

/-- No two slots have the same place. -/
theorem nodup_places (jobs : List JobDefinition) : ((slots jobs).map Prod.fst).Nodup :=
  List.pairwise_map.2 ((pairwise_slots jobs).imp Place.Before.ne)

variable {jobs : List JobDefinition} {place place' : Place} {job job' : JobDefinition}
  {task task' : TaskDefinition} {container container' : ContainerDefinition}

/-- The task of a slot has pods. -/
theorem StandsAt.hasPods (h : StandsAt jobs place job task container) : task.HasPods :=
  ⟨fun hnil => by simpa [hnil] using h.container_eq, Nat.zero_lt_of_lt h.replica_lt⟩

/-- The job of a slot has its stem. -/
theorem StandsAt.hasStem (h : StandsAt jobs place job task container) :
    HasStem jobs place.job (job.stem place.job task) :=
  ⟨job, task, h.job_eq, List.mem_of_getElem? h.task_eq, h.hasPods, rfl⟩

/-- A stem is that of some slot of the first replica. -/
theorem HasStem.exists_slot {position : Nat} {stem : String} (h : HasStem jobs position stem) :
    ∃ s ∈ slots jobs, s.1.job = position ∧ slotName s = stem ++ "-" ++ toString 0 := by
  obtain ⟨job, task, hjob, htask, ⟨hcontainers, hreplicas⟩, rfl⟩ := h
  obtain ⟨k, htask⟩ := List.mem_iff_getElem?.1 htask
  obtain ⟨container, hcontainer⟩ := Option.ne_none_iff_exists'.1 (mt List.head?_eq_none_iff.1 hcontainers)
  exact ⟨(⟨position, k, 0⟩, task.templateFrom job ⟨position, k, 0⟩ container),
    mem_slots.2 ⟨job, task, container, ⟨hjob, htask, hcontainer, hreplicas⟩, rfl⟩, rfl, rfl⟩

/-- Slots have the same name exactly if they share the stem and the replica. -/
theorem slotName_templateFrom_inj :
    slotName (place, task.templateFrom job place container) =
        slotName (place', task'.templateFrom job' place' container') ↔
      job.stem place.job task = job'.stem place'.job task' ∧ place.replica = place'.replica :=
  join_toString_inj

/-! ### Names that are told apart -/

/-- The names of a workload are distinct: those of the jobs, and in each job those given to tasks. -/
structure Named (jobs : List JobDefinition) : Prop where
  /-- No two jobs have the same name. -/
  nodup_jobs : (jobs.zipIdx.map fun a => a.1.nameAt a.2).Nodup
  /-- No two tasks of a job are given the same name. -/
  nodup_tasks : ∀ job ∈ jobs, (job.tasks.filterMap TaskDefinition.name?).Nodup

/-- In each job at most one of the tasks with pods goes by the label of a task without a name. -/
def OneUnnamed (jobs : List JobDefinition) : Prop :=
  ∀ job ∈ jobs, job.tasks.Pairwise fun task task' =>
    task.HasPods → task'.HasPods → task.label = "task" → task'.label ≠ "task"

/-- The first of two jobs that stand at positions goes on with a dash after the second one, in its namespace or
in its name. -/
def Overlaps (a b : JobDefinition × Nat) : Prop :=
  Extends a.1.namespaceName b.1.namespaceName ∨
    a.1.namespaceName = b.1.namespaceName ∧ Extends (a.1.nameAt a.2) (b.1.nameAt b.2)

instance (a b : JobDefinition × Nat) : Decidable (Overlaps a b) := inferInstanceAs (Decidable (_ ∨ _))

/-- Jobs of one name stand at one position. -/
theorem Named.position_eq (h : Named jobs) {i j : Nat} (hi : jobs[i]? = some job) (hj : jobs[j]? = some job')
    (hname : job.nameAt i = job'.nameAt j) : i = j :=
  congrArg Prod.snd (List.inj_on_of_nodup_map h.nodup_jobs (List.mem_zipIdx_iff_getElem?.2 hi)
    (List.mem_zipIdx_iff_getElem?.2 hj) hname : (job, i) = (job', j))

/-- No two tasks of a job that have pods have the same label. -/
theorem pairwise_label_ne (hnamed : Named jobs) (hone : OneUnnamed jobs) (hjob : job ∈ jobs) :
    job.tasks.Pairwise fun t t' => t.HasPods → t'.HasPods → t.label ≠ t'.label := by
  refine ((List.pairwise_filterMap.1 (hnamed.nodup_tasks job hjob)).and (hone job hjob)).imp ?_
  rintro t t' ⟨hdistinct, hunnamed⟩ ht ht' heq
  -- A label shared by tasks that are not both named is that of a task without a name.
  cases hname : t.name? with
  | none =>
    have hlabel := label_of_name?_eq_none hname
    exact hunnamed ht ht' hlabel (heq ▸ hlabel)
  | some n =>
    cases hname' : t'.name? with
    | none =>
      have hlabel := label_of_name?_eq_none hname'
      exact hunnamed ht ht' (heq.trans hlabel) hlabel
    | some n' =>
      rw [TaskDefinition.label, TaskDefinition.label, hname, hname'] at heq
      exact hdistinct n hname n' hname' heq

/-- The tasks of a job with pods are told apart by their labels. -/
theorem position_eq_of_label_eq (hnamed : Named jobs) (hone : OneUnnamed jobs) (hjob : job ∈ jobs) {k l : Nat}
    (hk : job.tasks[k]? = some task) (hl : job.tasks[l]? = some task') (hpods : task.HasPods)
    (hpods' : task'.HasPods) (hlabel : task.label = task'.label) : k = l := by
  obtain ⟨hklt, rfl⟩ := List.getElem?_eq_some_iff.1 hk
  obtain ⟨hllt, rfl⟩ := List.getElem?_eq_some_iff.1 hl
  have hpairwise := List.pairwise_iff_getElem.1 (pairwise_label_ne hnamed hone hjob)
  rcases Nat.lt_trichotomy k l with hlt | heq | hgt
  · exact absurd hlabel (hpairwise k l hklt hllt hlt hpods hpods')
  · exact heq
  · exact absurd hlabel.symm (hpairwise l k hllt hklt hgt hpods' hpods)

/-- Replicas of one job with the same stem and the same number stand at the same place. -/
theorem place_eq_of_stem_eq (hnamed : Named jobs) (hone : OneUnnamed jobs)
    (h : StandsAt jobs place job task container) (h' : StandsAt jobs place' job' task' container')
    (hjob : place.job = place'.job) (hstem : job.stem place.job task = job'.stem place'.job task')
    (hreplica : place.replica = place'.replica) : place = place' := by
  obtain ⟨i, k, r⟩ := place
  obtain ⟨i', k', r'⟩ := place'
  dsimp only at hjob hstem hreplica
  subst hjob hreplica
  have hsame : job = job' := Option.some.inj (h.job_eq.symm.trans h'.job_eq)
  subst hsame
  have hlabel : task.label = task'.label := (String.append_right_inj _).1 hstem
  have hmem : job ∈ jobs := List.mem_of_getElem? h.job_eq
  have htask : k = k' :=
    position_eq_of_label_eq hnamed hone hmem h.task_eq h'.task_eq h.hasPods h'.hasPods hlabel
  rw [htask]

/-- Jobs of distinct names share a stem only if one of them overlaps the other. -/
theorem overlaps_of_stem_eq {a b : JobDefinition × Nat}
    (hname : a.1.nameAt a.2 ≠ b.1.nameAt b.2) (h : a.1.stem a.2 task = b.1.stem b.2 task') :
    Overlaps a b ∨ Overlaps b a := by
  have hsplit : a.1.namespaceName ++ "-" ++ (a.1.nameAt a.2 ++ "-" ++ task.label) =
      b.1.namespaceName ++ "-" ++ (b.1.nameAt b.2 ++ "-" ++ task'.label) := by
    simpa only [JobDefinition.stem, String.append_assoc] using h
  rcases join_eq_join hsplit with ⟨hspace, hrest⟩ | ⟨rest, hrest, -⟩ | ⟨rest, hrest, -⟩
  · rcases join_eq_join hrest with ⟨heq, -⟩ | ⟨rest, hrest, -⟩ | ⟨rest, hrest, -⟩
    · exact absurd heq hname
    · exact .inl (.inr ⟨hspace, rest, hrest⟩)
    · exact .inr (.inr ⟨hspace.symm, rest, hrest⟩)
  · exact .inl (.inl ⟨rest, hrest⟩)
  · exact .inr (.inl ⟨rest, hrest⟩)

/-- If no two jobs overlap, a stem tells the position of its job. -/
theorem position_eq_of_hasStem (hnamed : Named jobs)
    (hoverlap : ∀ a ∈ jobs.zipIdx, ∀ b ∈ jobs.zipIdx, ¬ Overlaps a b) {i j : Nat} {stem : String}
    (hi : HasStem jobs i stem) (hj : HasStem jobs j stem) : i = j := by
  obtain ⟨job, task, hi, -, -, rfl⟩ := hi
  obtain ⟨job', task', hj, -, -, heq⟩ := hj
  by_contra hne
  have hname : job.nameAt i ≠ job'.nameAt j := fun hname => hne (hnamed.position_eq hi hj hname)
  have hmem : (job, i) ∈ jobs.zipIdx := List.mem_zipIdx_iff_getElem?.2 hi
  have hmem' : (job', j) ∈ jobs.zipIdx := List.mem_zipIdx_iff_getElem?.2 hj
  rcases overlaps_of_stem_eq (a := (job, i)) (b := (job', j)) hname heq.symm with h | h
  · exact hoverlap _ hmem _ hmem' h
  · exact hoverlap _ hmem' _ hmem h

/-- The names of pods are distinct exactly if a stem tells the position of its job. -/
theorem nodup_names_iff (hnamed : Named jobs) (hone : OneUnnamed jobs) :
    ((WorkloadManifest.expand ⟨jobs⟩).value.map Pod.name).Nodup ↔
      ∀ i j stem, HasStem jobs i stem → HasStem jobs j stem → i = j := by
  rw [map_name_expand, List.nodup_map_iff_inj_on (nodup_places jobs).of_map]
  constructor
  · intro hinj i j stem hi hj
    obtain ⟨s, hs, rfl, hname⟩ := hi.exists_slot
    obtain ⟨s', hs', rfl, hname'⟩ := hj.exists_slot
    rw [hinj s hs s' hs' (hname.trans hname'.symm)]
  · rintro hstem ⟨place, _⟩ hs ⟨place', _⟩ hs' hname
    obtain ⟨job, task, container, hstands, rfl⟩ := mem_slots.1 hs
    obtain ⟨job', task', container', hstands', rfl⟩ := mem_slots.1 hs'
    obtain ⟨heq, hreplica⟩ := slotName_templateFrom_inj.1 hname
    have hjob : place.job = place'.job := hstem _ _ _ hstands.hasStem (heq ▸ hstands'.hasStem)
    exact List.inj_on_of_nodup_map (nodup_places jobs) hs hs'
      (place_eq_of_stem_eq hnamed hone hstands hstands' hjob heq hreplica)

/-- With distinct names of jobs and tasks, and at most one task with pods in a job that goes by the label of one
without a name, the names of the pods are distinct exactly if no two jobs share a stem. So they are if no job
overlaps another one. -/
theorem nodup_names_expand (hnamed : Named jobs) (hone : OneUnnamed jobs) :
    (((WorkloadManifest.expand ⟨jobs⟩).value.map Pod.name).Nodup ↔
      ∀ i j stem, HasStem jobs i stem → HasStem jobs j stem → i = j) ∧
    ((∀ a ∈ jobs.zipIdx, ∀ b ∈ jobs.zipIdx, ¬ Overlaps a b) →
      ((WorkloadManifest.expand ⟨jobs⟩).value.map Pod.name).Nodup) :=
  ⟨nodup_names_iff hnamed hone, fun hoverlap => (nodup_names_iff hnamed hone).2
    fun _ _ _ hi hj => position_eq_of_hasStem hnamed hoverlap hi hj⟩

/-- Two jobs of one namespace whose names hold dashes, and a job of another one whose task has no name. -/
def training : List JobDefinition := [
  { name? := some "resnet-train", namespaceName := "ml", tasks? := some [
      { name? := some "ps", containers := [{}] }, { replicas := 2, name? := some "worker", containers := [{}] }] },
  { name? := some "bert-eval", namespaceName := "ml", tasks? := some [
      { name? := some "eval", containers := [{}] }] },
  { name? := some "etl", tasks? := some [{ containers := [{}] }] }]

/-- No job of `training` overlaps another one, so the names of its pods are distinct. -/
theorem nodup_names_expand_training :
    Named training ∧ OneUnnamed training ∧
      (∀ a ∈ training.zipIdx, ∀ b ∈ training.zipIdx, ¬ Overlaps a b) ∧
      ((WorkloadManifest.expand ⟨training⟩).value.map Pod.name).Nodup :=
  have hnamed : Named training := ⟨by decide +kernel, by decide +kernel⟩
  have hone : OneUnnamed training := by unfold OneUnnamed; decide +kernel
  have hoverlap : ∀ a ∈ training.zipIdx, ∀ b ∈ training.zipIdx, ¬ Overlaps a b := by decide +kernel
  ⟨hnamed, hone, hoverlap, (nodup_names_expand hnamed hone).2 hoverlap⟩

/-- Jobs that look alike: the task of the first one and the name of the second one make up for the difference, and
the third one has two tasks without a name. -/
def lookalikes : List JobDefinition := [
  { name? := some "train", tasks? := some [{ name? := some "a-b", containers := [{}] }] },
  { name? := some "train-a", tasks? := some [{ name? := some "b", containers := [{}] }] },
  { name? := some "solo", tasks? := some [{ containers := [{}] }, { containers := [{}] }] }]

/-- Distinct names of jobs and tasks are not enough for distinct names of pods. -/
theorem not_nodup_lookalikes :
    Named lookalikes ∧
      (WorkloadManifest.expand ⟨lookalikes⟩).value.map Pod.name =
        ["default-train-a-b-0", "default-train-a-b-0", "default-solo-task-0", "default-solo-task-0"] ∧
      ¬ ((WorkloadManifest.expand ⟨lookalikes⟩).value.map Pod.name).Nodup := by
  have hnames : (WorkloadManifest.expand ⟨lookalikes⟩).value.map Pod.name =
      ["default-train-a-b-0", "default-train-a-b-0", "default-solo-task-0", "default-solo-task-0"] := by
    decide +kernel
  refine ⟨⟨by decide +kernel, by decide +kernel⟩, hnames, ?_⟩
  rw [hnames]
  decide

end PodPlacement.Manifest
