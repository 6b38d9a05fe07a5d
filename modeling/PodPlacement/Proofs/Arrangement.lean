import Mathlib.Data.List.Flatten
import Mathlib.Data.List.Induction
import PodPlacement.Proofs.Ledger.Balance
import PodPlacement.Proofs.Policy

/-! # Arranging pods job by job

The jobs of some pods are listed in the order they first appear, each with its size. To arrange pods by
the sizes of their jobs, the pods are sorted by number, the jobs by size, and then the pods by the place
of their job. Each of these sorts is stable, and what one of them leaves undecided was decided by the one
before it: jobs of one size come in the order in which they first appear, which is that of their least
numbers, and the pods of one job are in the order of their numbers.

* `ListsSizes`, `listsSizes_jobSizes` — each job is listed once, in order of first appearance, with the sum
  of the durations of its pods.
* `pairwise_arrange` — arranged pods are in one strict order: their jobs decide, and then their numbers.
* `ArrangedByJob`, `arrangedByJob_arrange` — they stand job by job.
* `arrange_jobByJob` — all that arranging does. -/

namespace PodPlacement

/-! ### Jobs -/

/-- The jobs of some pods, each once, in the order they first appear. -/
def jobsOf (pods : List Pod) : List String := (pods.map Pod.job).eraseDups

/-- The pods of a job, as they are listed. -/
def podsOf (pods : List Pod) (job : String) : List Pod := pods.filter fun p => p.job = job

/-- The sum of some durations, added up from the first one on. -/
def total : List Seconds → Seconds
  | [] => 0
  | t :: ts => ts.foldl (· + ·) t

/-- The sum of the durations of the pods of a job. -/
def jobSize (pods : List Pod) (job : String) : Seconds := total ((podsOf pods job).map Pod.duration)

/-- The least number of a pod of a job. -/
def leastId (pods : List Pod) (job : String) : Nat := ((podsOf pods job).map Pod.id).min?.getD 0

variable {pods : List Pod} {p : Pod} {job : String}

/-- A pod of a job is one of the pods, and it belongs to the job. -/
theorem mem_podsOf : p ∈ podsOf pods job ↔ p ∈ pods ∧ p.job = job := by
  rw [podsOf, List.mem_filter, decide_eq_true_eq]

/-- One more pod stands at the end of its own job. -/
theorem podsOf_concat (pods : List Pod) (p : Pod) (job : String) :
    podsOf (pods ++ [p]) job = if p.job = job then podsOf pods job ++ [p] else podsOf pods job := by
  rw [podsOf, List.filter_append, ← podsOf]
  by_cases hp : p.job = job
  · rw [if_pos hp, List.filter_cons_of_pos (by simpa using hp), List.filter_nil]
  · rw [if_neg hp, List.filter_cons_of_neg (by simpa using hp), List.filter_nil, List.append_nil]

/-- The jobs are those of the pods. -/
theorem mem_jobsOf : job ∈ jobsOf pods ↔ ∃ p ∈ pods, p.job = job := by
  rw [jobsOf, List.mem_eraseDups, List.mem_map]

/-- One more pod adds its job at the end, unless the job has pods already. -/
theorem jobsOf_concat (pods : List Pod) (p : Pod) : jobsOf (pods ++ [p]) =
    if p.job ∈ jobsOf pods then jobsOf pods else jobsOf pods ++ [p.job] := by
  rw [jobsOf, List.map_append, List.map_singleton, eraseDups_concat]
  simp only [jobsOf, List.mem_eraseDups]

/-- The jobs are listed in the order in which they first appear. -/
theorem pairwise_idxOf_jobsOf (pods : List Pod) : (jobsOf pods).Pairwise fun a b =>
    (pods.map Pod.job).idxOf a < (pods.map Pod.job).idxOf b := by
  induction pods using List.reverseRecOn with
  | nil => exact .nil
  | append_singleton pods p ih =>
    have hmem : ∀ {job}, job ∈ jobsOf pods ↔ job ∈ pods.map Pod.job := List.mem_eraseDups
    have hplace : ∀ job ∈ jobsOf pods,
        ((pods ++ [p]).map Pod.job).idxOf job = (pods.map Pod.job).idxOf job := by
      intro job hjob
      rw [List.map_append, List.idxOf_append_of_mem (hmem.1 hjob)]
    have hold : (jobsOf pods).Pairwise fun a b =>
        ((pods ++ [p]).map Pod.job).idxOf a < ((pods ++ [p]).map Pod.job).idxOf b :=
      ih.imp_of_mem fun ha hb hab => by rwa [hplace _ ha, hplace _ hb]
    rw [jobsOf_concat]
    by_cases hp : p.job ∈ jobsOf pods
    · rwa [if_pos hp]
    · rw [if_neg hp]
      refine List.pairwise_append.2 ⟨hold, List.pairwise_singleton _ _, ?_⟩
      intro a ha b hb
      rw [List.mem_singleton.1 hb, hplace a ha, List.map_append,
        List.idxOf_append_of_notMem (mt hmem.2 hp)]
      exact Nat.lt_add_right _ (List.idxOf_lt_length_of_mem (hmem.1 ha))

/-- Each job is listed once. -/
theorem nodup_jobsOf (pods : List Pod) : (jobsOf pods).Nodup := nodup_eraseDups _

/-- A job is listed before another one because one of its pods comes before all pods of the other. -/
theorem pairwise_jobsOf {R : Pod → Pod → Prop} (h : pods.Pairwise R) : (jobsOf pods).Pairwise fun a b =>
    ∃ p ∈ pods, p.job = a ∧ ∀ q ∈ pods, q.job = b → R p q := by
  refine (pairwise_idxOf_jobsOf pods).imp_of_mem ?_
  intro a b ha _ hab
  have hlength : (pods.map Pod.job).idxOf a < (pods.map Pod.job).length :=
    List.idxOf_lt_length_of_mem (List.mem_eraseDups.1 ha)
  have hi : (pods.map Pod.job).idxOf a < pods.length := by rwa [List.length_map] at hlength
  refine ⟨pods[(pods.map Pod.job).idxOf a], List.getElem_mem hi, ?_, ?_⟩
  · have hfirst := List.getElem_idxOf hlength
    rwa [List.getElem_map] at hfirst
  · intro q hq hqb
    obtain ⟨j, hj, rfl⟩ := List.getElem_of_mem hq
    have hle : (pods.map Pod.job).idxOf b ≤ j := by
      refine Nat.le_of_not_lt fun hlt => ?_
      have hother := List.not_of_lt_findIdx hlt
      rw [List.getElem_map, hqb, beq_self_eq_true] at hother
      cases hother
    exact List.pairwise_iff_getElem.1 h _ _ hi hj (Nat.lt_of_lt_of_le hab hle)

/-! ### Sizes -/

/-- One more duration is added to a sum, or begins it. -/
theorem total_concat (ts : List Seconds) (t : Seconds) :
    total (ts ++ [t]) = if ts = [] then t else total ts + t := by
  cases ts with
  | nil => rfl
  | cons u us => simp [total, List.foldl_append]

/-- One more pod counts for the size of its own job only. -/
theorem jobSize_concat (pods : List Pod) (p : Pod) (job : String) : jobSize (pods ++ [p]) job =
    if p.job = job then if job ∈ jobsOf pods then jobSize pods job + p.duration else p.duration
    else jobSize pods job := by
  rw [jobSize, podsOf_concat]
  by_cases hp : p.job = job
  · have hempty : (podsOf pods job).map Pod.duration = [] ↔ job ∉ jobsOf pods := by
      rw [mem_jobsOf, List.map_eq_nil_iff, podsOf, List.filter_eq_nil_iff]
      simp
    rw [if_pos hp, if_pos hp, List.map_append, List.map_singleton, total_concat]
    by_cases hjob : job ∈ jobsOf pods
    · rw [if_pos hjob, if_neg (fun h => hempty.1 h hjob), jobSize]
    · rw [if_neg hjob, if_pos (hempty.2 hjob)]
  · rw [if_neg hp, if_neg hp, jobSize]

/-- In a list of jobs with sizes, a pod is added to the size of its job, or its job is put at the end. -/
theorem addJobSize_map {jobs : List String} (hjobs : jobs.Nodup) (size : String → Seconds) (p : Pod) :
    addJobSize (jobs.map fun job => (job, size job)) p =
      if p.job ∈ jobs then
        jobs.map fun job => (job, if p.job = job then size job + p.duration else size job)
      else (jobs.map fun job => (job, size job)) ++ [(p.job, p.duration)] := by
  induction jobs with
  | nil => rfl
  | cons a jobs ih =>
    obtain ⟨ha, hjobs⟩ := List.nodup_cons.1 hjobs
    rw [List.map_cons, addJobSize]
    by_cases hp : a = p.job
    · -- The job does not come a second time.
      have hrest : (jobs.map fun job => (job, if p.job = job then size job + p.duration else size job)) =
          jobs.map fun job => (job, size job) := by
        refine List.map_congr_left ?_
        intro job hjob
        rw [if_neg]
        rintro rfl
        exact ha (hp ▸ hjob)
      rw [if_pos hp, if_pos (hp ▸ List.mem_cons_self), List.map_cons, if_pos hp.symm, hrest]
    · rw [if_neg hp, ih hjobs]
      by_cases hmem : p.job ∈ jobs
      · rw [if_pos hmem, if_pos (List.mem_cons_of_mem a hmem), List.map_cons, if_neg fun h => hp h.symm]
      · rw [if_neg hmem, if_neg fun h => (List.mem_cons.1 h).elim (fun h => hp h.symm) hmem]
        rfl

/-- The sizes of the jobs: each job is listed once, in the order of first appearance, with the sum of the
durations of exactly its pods. -/
theorem jobSizes_eq (pods : List Pod) :
    jobSizes pods = (jobsOf pods).map fun job => (job, jobSize pods job) := by
  induction pods using List.reverseRecOn with
  | nil => rfl
  | append_singleton pods p ih =>
    have hstep : jobSizes (pods ++ [p]) = addJobSize (jobSizes pods) p := by
      rw [jobSizes, List.foldl_append]
      rfl
    rw [hstep, ih, addJobSize_map (nodup_jobsOf pods), jobsOf_concat]
    by_cases hp : p.job ∈ jobsOf pods
    · rw [if_pos hp, if_pos hp]
      refine List.map_congr_left ?_
      intro job hjob
      rw [jobSize_concat, if_pos hjob]
    · rw [if_neg hp, if_neg hp, List.map_append, List.map_singleton, jobSize_concat, if_pos rfl, if_neg hp]
      congr 1
      refine List.map_congr_left ?_
      intro job hjob
      rw [jobSize_concat, if_neg]
      rintro rfl
      exact hp hjob

/-- What it means to list jobs with their sizes: each job once, in the order of first appearance, with the
sum of the durations of exactly its pods. -/
structure ListsSizes (pods : List Pod) (sizes : List (String × Seconds)) : Prop where
  /-- The jobs are those of the pods. -/
  jobs : ∀ job, job ∈ sizes.map Prod.fst ↔ ∃ p ∈ pods, p.job = job
  /-- They are listed in the order in which they first appear, and so once each. -/
  inOrder : (sizes.map Prod.fst).Pairwise fun a b =>
    (pods.map Pod.job).idxOf a < (pods.map Pod.job).idxOf b
  /-- A size is the sum of the durations of the pods of the job. -/
  size : ∀ job size, (job, size) ∈ sizes → size = jobSize pods job

/-- The sizes of the jobs are listed as they should be. -/
theorem listsSizes_jobSizes (pods : List Pod) : ListsSizes pods (jobSizes pods) := by
  have hjobs : (jobSizes pods).map Prod.fst = jobsOf pods := by
    rw [jobSizes_eq, List.map_map]
    exact List.map_id _
  refine ⟨?_, ?_, ?_⟩
  · intro job
    rw [hjobs, mem_jobsOf]
  · rw [hjobs]
    exact pairwise_idxOf_jobsOf pods
  · intro job size h
    rw [jobSizes_eq] at h
    obtain ⟨_, -, heq⟩ := List.mem_map.1 h
    obtain ⟨rfl, rfl⟩ := Prod.mk.inj heq
    rfl

/-! ### Least numbers -/

/-- No pod of a job has a number below the least one. -/
theorem leastId_le (hp : p ∈ pods) (hjob : p.job = job) : leastId pods job ≤ p.id := by
  have hmem : p.id ∈ (podsOf pods job).map Pod.id := List.mem_map_of_mem (mem_podsOf.2 ⟨hp, hjob⟩)
  rw [leastId]
  cases hmin : ((podsOf pods job).map Pod.id).min? with
  | none => exact Nat.zero_le _
  | some k => exact (List.min?_eq_some_iff.1 hmin).2 _ hmem

/-- The least number is that of a pod of the job. -/
theorem exists_leastId (hjob : job ∈ jobsOf pods) : ∃ p ∈ pods, p.job = job ∧ p.id = leastId pods job := by
  obtain ⟨p, hp, hpjob⟩ := mem_jobsOf.1 hjob
  have hmem : p.id ∈ (podsOf pods job).map Pod.id := List.mem_map_of_mem (mem_podsOf.2 ⟨hp, hpjob⟩)
  cases hmin : ((podsOf pods job).map Pod.id).min? with
  | none =>
    rw [List.min?_eq_none_iff] at hmin
    rw [hmin] at hmem
    cases hmem
  | some k =>
    obtain ⟨q, hq, hqk⟩ := List.mem_map.1 (List.min?_eq_some_iff.1 hmin).1
    obtain ⟨hq, hqjob⟩ := mem_podsOf.1 hq
    exact ⟨q, hq, hqjob, by rw [leastId, hmin, hqk]; rfl⟩

namespace JobOrder

/-! ### Jobs in order -/

/-- Which of two sizes comes first. -/
def compareSizes : JobOrder → Seconds → Seconds → Ordering
  | input => fun _ _ => .eq
  | sizeAscending => compare
  | sizeDescending => fun a b => compare b a

/-- Which of two jobs of some pods comes first by size; the durations are added up in the order of the numbers
of the pods. -/
def compareBySize (order : JobOrder) (pods : List Pod) (a b : String) : Ordering :=
  order.compareSizes (jobSize (input.arrange pods) a) (jobSize (input.arrange pods) b)

/-- Which of two jobs of some pods comes first: the sizes decide, and then the least numbers. -/
def compareJobs (order : JobOrder) (pods : List Pod) : String → String → Ordering :=
  compareLex (order.compareBySize pods) (compareOn (leastId pods))

/-- The jobs of some pods in the order of their sizes. -/
def jobsInOrder (order : JobOrder) (pods : List Pod) : List String :=
  sortBy (order.compareBySize pods) (jobsOf (input.arrange pods))

instance (order : JobOrder) (pods : List Pod) : Std.TransCmp (order.compareBySize pods) :=
  match order with
  | input => { eq_swap := rfl, isLE_trans := fun _ _ => rfl }
  | sizeAscending => inferInstanceAs (Std.TransCmp (compareOn (jobSize (input.arrange pods))))
  | sizeDescending =>
    inferInstanceAs (Std.TransCmp fun a b => compareOn (jobSize (input.arrange pods)) b a)

instance (order : JobOrder) (pods : List Pod) : Std.TransCmp (order.compareJobs pods) :=
  inferInstanceAs (Std.TransCmp (compareLex _ _))

variable {order : JobOrder} {pods : List Pod} {job : String}

/-- Arranged pods are the given ones. -/
theorem mem_arrange {p : Pod} : p ∈ order.arrange pods ↔ p ∈ pods := (arrange_perm order pods).mem_iff

/-- Without regard to jobs, pods with distinct numbers are in the order of their numbers. -/
theorem pairwise_arrange_input (hids : (pods.map Pod.id).Nodup) :
    (input.arrange pods).Pairwise fun p q => p.id < q.id := by
  have hdistinct := ((arrange_perm input pods).map Pod.id).nodup_iff.2 hids
  rw [List.Nodup, List.pairwise_map] at hdistinct
  have hsorted : (input.arrange pods).Pairwise fun p q => (compareOn Pod.id p q).isLE := pairwise_sortBy pods
  exact (hsorted.and hdistinct).imp fun ⟨hle, hne⟩ => Nat.lt_of_le_of_ne (Nat.isLE_compare.1 hle) hne

/-- What is in the order of numbers is sorted by number. -/
theorem pairwise_compareOn_id (h : pods.Pairwise fun p q => p.id < q.id) :
    pods.Pairwise fun p q => compareOn Pod.id p q = .lt := h.imp Nat.compare_eq_lt.2

/-- The jobs in order are those of the pods. -/
theorem mem_jobsInOrder : job ∈ order.jobsInOrder pods ↔ ∃ p ∈ pods, p.job = job := by
  rw [jobsInOrder, (sortBy_perm _ _).mem_iff, mem_jobsOf]
  simp only [mem_arrange]

/-- Each job has one place in the order. -/
theorem nodup_jobsInOrder (order : JobOrder) (pods : List Pod) : (order.jobsInOrder pods).Nodup :=
  (sortBy_perm _ _).nodup_iff.2 (nodup_jobsOf _)

/-- Jobs in the order of their sizes are, where sizes are equal, in the order of their least numbers. -/
theorem pairwise_jobsInOrder (hids : (pods.map Pod.id).Nodup) :
    (order.jobsInOrder pods).Pairwise fun a b => order.compareJobs pods a b = .lt := by
  refine pairwise_sortBy_compareLex ?_
  refine (pairwise_jobsOf (pairwise_arrange_input hids)).imp_of_mem ?_
  rintro a b - hb ⟨p, hp, hpa, hfirst⟩
  have hb' : b ∈ jobsOf pods := mem_jobsOf.2 (by simpa only [mem_arrange] using mem_jobsOf.1 hb)
  obtain ⟨q, hq, hqb, hqid⟩ := exists_leastId hb'
  have hle := leastId_le (mem_arrange.1 hp) hpa
  have hlt := hfirst q (mem_arrange.2 hq) hqb
  exact Nat.compare_eq_lt.2 (hqid ▸ Nat.lt_of_le_of_lt hle hlt)

/-- To arrange pods by the sizes of their jobs is to sort them by number, and then by the place of their
job. -/
theorem arrange_eq_sortBy (horder : order ≠ input) (pods : List Pod) : order.arrange pods =
    sortBy (compareOn fun p => (order.jobsInOrder pods).idxOf p.job) (input.arrange pods) := by
  have hjobs : (order.sortSizes (jobSizes (input.arrange pods))).map Prod.fst = order.jobsInOrder pods := by
    have hsort : order.sortSizes (jobSizes (input.arrange pods)) =
        (order.jobsInOrder pods).map fun job => (job, jobSize (input.arrange pods) job) := by
      rw [jobSizes_eq, jobsInOrder]
      cases order with
      | input => exact absurd rfl horder
      | sizeAscending => exact (map_sortBy (compareOn Prod.snd) _ _).symm
      | sizeDescending =>
        exact (map_sortBy (fun a b : String × Seconds => compare b.2 a.2)
          (fun job => (job, jobSize (input.arrange pods) job)) _).symm
    rw [hsort, List.map_map]
    exact List.map_id _
  rw [← hjobs]
  cases order with
  | input => exact absurd rfl horder
  | sizeAscending | sizeDescending => rfl

/-! ### Arranged pods -/

/-- Which of two pods has its job at an earlier place in the order, and then which has the lower
number. -/
def comparePlaces (order : JobOrder) (pods : List Pod) : Pod → Pod → Ordering :=
  compareLex (compareOn fun p => (order.jobsInOrder pods).idxOf p.job) (compareOn Pod.id)

instance (order : JobOrder) (pods : List Pod) : Std.TransCmp (order.comparePlaces pods) :=
  inferInstanceAs (Std.TransCmp (compareLex (compareOn _) (compareOn Pod.id)))

/-- A pod comes first if the place of its job is earlier, or else is the same and its number is lower. -/
theorem comparePlaces_eq_lt {p q : Pod} : order.comparePlaces pods p q = .lt ↔
    (order.jobsInOrder pods).idxOf p.job < (order.jobsInOrder pods).idxOf q.job ∨
      (order.jobsInOrder pods).idxOf p.job = (order.jobsInOrder pods).idxOf q.job ∧ p.id < q.id := by
  rw [comparePlaces, compareLex, Ordering.then_eq_lt, compareOn, compareOn, Nat.compare_eq_lt,
    Nat.compare_eq_eq, Nat.compare_eq_lt]

/-- Pods that stand job by job, in the order of their numbers, are in any order that goes by number inside a
job and by the jobs otherwise. -/
theorem pairwise_flatMap_podsOf (hids : (pods.map Pod.id).Nodup) {jobs : List String}
    {R : Pod → Pod → Prop} (hinside : ∀ p q, p.job = q.job → p.id < q.id → R p q)
    (hacross : jobs.Pairwise fun a b => ∀ p q, p.job = a → q.job = b → R p q) :
    (jobs.flatMap (podsOf (input.arrange pods))).Pairwise R := by
  refine List.pairwise_flatMap.2 ⟨?_, ?_⟩
  · intro job _
    refine ((pairwise_arrange_input hids).filter _).imp_of_mem ?_
    intro p q hp hq hid
    exact hinside p q ((mem_podsOf.1 hp).2.trans (mem_podsOf.1 hq).2.symm) hid
  · refine hacross.imp ?_
    intro a b hab p hp q hq
    exact hab p q (mem_podsOf.1 hp).2 (mem_podsOf.1 hq).2

/-- Arranged by the sizes of their jobs, pods with distinct numbers stand job by job, in the order of their
numbers. -/
theorem arrange_eq_flatMap (horder : order ≠ input) (hids : (pods.map Pod.id).Nodup) :
    order.arrange pods = (order.jobsInOrder pods).flatMap (podsOf (input.arrange pods)) := by
  rw [arrange_eq_sortBy horder]
  have hsorted : (sortBy (compareOn fun p => (order.jobsInOrder pods).idxOf p.job)
      (input.arrange pods)).Pairwise fun p q => order.comparePlaces pods p q = .lt :=
    pairwise_sortBy_compareLex (pairwise_compareOn_id (pairwise_arrange_input hids))
  have hblocks : ((order.jobsInOrder pods).flatMap (podsOf (input.arrange pods))).Pairwise fun p q =>
      order.comparePlaces pods p q = .lt := by
    refine pairwise_flatMap_podsOf hids (fun p q hjob hid => ?_) (List.pairwise_iff_getElem.2 ?_)
    · exact comparePlaces_eq_lt.2 (.inr ⟨by rw [hjob], hid⟩)
    · rintro i j hi hj hij p q hp hq
      have hnodup := nodup_jobsInOrder order pods
      refine comparePlaces_eq_lt.2 (.inl ?_)
      rwa [hp, hq, hnodup.idxOf_getElem i hi, hnodup.idxOf_getElem j hj]
  refine eq_of_pairwise_lt hsorted hblocks ?_
  intro p
  rw [(sortBy_perm _ _).mem_iff, List.mem_flatMap]
  constructor
  · intro hp
    exact ⟨p.job, mem_jobsInOrder.2 ⟨p, mem_arrange.1 hp, rfl⟩, mem_podsOf.2 ⟨hp, rfl⟩⟩
  · rintro ⟨job, -, hp⟩
    exact (mem_podsOf.1 hp).1

/-- Which of two pods stands first among arranged pods: their jobs decide, and then their numbers. -/
def comparePods (order : JobOrder) (pods : List Pod) : Pod → Pod → Ordering :=
  compareLex (fun p q => order.compareJobs pods p.job q.job) (compareOn Pod.id)

instance (order : JobOrder) (pods : List Pod) :
    Std.TransCmp fun p q : Pod => order.compareJobs pods p.job q.job where
  eq_swap {p q} := @Std.OrientedCmp.eq_swap _ (order.compareJobs pods) _ p.job q.job
  isLE_trans {p q r} := @Std.TransCmp.isLE_trans _ (order.compareJobs pods) _ p.job q.job r.job

instance (order : JobOrder) (pods : List Pod) : Std.TransCmp (order.comparePods pods) :=
  inferInstanceAs (Std.TransCmp (compareLex (fun p q : Pod => order.compareJobs pods p.job q.job)
    (compareOn Pod.id)))

/-- A pod stands first if its job does, or else the jobs order alike and its number is lower. -/
theorem comparePods_eq_lt {p q : Pod} : order.comparePods pods p q = .lt ↔
    order.compareJobs pods p.job q.job = .lt ∨
      order.compareJobs pods p.job q.job = .eq ∧ p.id < q.id := by
  rw [comparePods, compareLex, Ordering.then_eq_lt, compareOn, Nat.compare_eq_lt]

/-- Of two pods of one job, the one with the lower number stands first. -/
theorem comparePods_eq_lt_of_job_eq {p q : Pod} (h : p.job = q.job) :
    order.comparePods pods p q = .lt ↔ p.id < q.id := by
  have hsame : order.compareJobs pods q.job q.job = .eq := Std.ReflCmp.compare_self
  rw [comparePods_eq_lt, h, hsame]
  simp

/-- Arranged by the sizes of their jobs, pods with distinct numbers are in one strict order. -/
theorem pairwise_arrange (horder : order ≠ input) (hids : (pods.map Pod.id).Nodup) :
    (order.arrange pods).Pairwise fun p q => order.comparePods pods p q = .lt := by
  rw [arrange_eq_flatMap horder hids]
  refine pairwise_flatMap_podsOf hids (fun p q hjob => (comparePods_eq_lt_of_job_eq hjob).2) ?_
  refine (pairwise_jobsInOrder hids).imp ?_
  rintro a b hab p q rfl rfl
  exact comparePods_eq_lt.2 (.inl hab)

/-- Jobs that order alike are one job. -/
theorem eq_of_compareJobs (hids : (pods.map Pod.id).Nodup) {a b : String} (ha : a ∈ jobsOf pods)
    (hb : b ∈ jobsOf pods) (h : order.compareJobs pods a b = .eq) : a = b := by
  obtain ⟨p, hp, rfl, hpid⟩ := exists_leastId ha
  obtain ⟨q, hq, rfl, hqid⟩ := exists_leastId hb
  have hleast := Nat.compare_eq_eq.1 (Ordering.then_eq_eq.1 h).2
  rw [eq_of_id_eq hids hp hq (hpid.trans (hleast.trans hqid.symm))]

/-- What it means for pods to stand job by job, the pods of a job in the order of their numbers, and the
jobs in the order of their sizes. -/
structure ArrangedByJob (order : JobOrder) (pods arranged : List Pod) : Prop where
  /-- The pods of a job stand together. -/
  together : arranged = (jobsOf arranged).flatMap (podsOf arranged)
  /-- The pods of a job are in the order of their numbers. -/
  byId : ∀ job, (podsOf arranged job).Pairwise fun p q => p.id < q.id
  /-- The jobs are in order. -/
  jobs : (jobsOf arranged).Pairwise fun a b => order.compareJobs pods a b = .lt

/-- Arranged by the sizes of their jobs, pods with distinct numbers stand job by job. -/
theorem arrangedByJob_arrange (horder : order ≠ input) (hids : (pods.map Pod.id).Nodup) :
    order.ArrangedByJob pods (order.arrange pods) := by
  have hmemJobs : ∀ {job}, job ∈ jobsOf (order.arrange pods) ↔ job ∈ jobsOf pods := by
    intro job
    simp only [mem_jobsOf, mem_arrange]
  have hsorted := pairwise_arrange horder hids
  have hbyId : ∀ job, (podsOf (order.arrange pods) job).Pairwise fun p q => p.id < q.id := by
    intro job
    refine (hsorted.filter _).imp_of_mem ?_
    intro p q hp hq hpq
    have hsame : p.job = q.job := (mem_podsOf.1 hp).2.trans (mem_podsOf.1 hq).2.symm
    exact (comparePods_eq_lt_of_job_eq hsame).1 hpq
  have hjobs : (jobsOf (order.arrange pods)).Pairwise fun a b => order.compareJobs pods a b = .lt := by
    refine ((pairwise_jobsOf hsorted).and (nodup_jobsOf _)).imp_of_mem ?_
    rintro a b ha hb ⟨⟨p, hp, rfl, hfirst⟩, hne⟩
    obtain ⟨q, hq, rfl⟩ := mem_jobsOf.1 hb
    rcases comparePods_eq_lt.1 (hfirst q hq rfl) with hlt | ⟨hsame, -⟩
    · exact hlt
    · exact absurd (eq_of_compareJobs hids (hmemJobs.1 ha) (hmemJobs.1 hb) hsame) hne
  refine ⟨?_, hbyId, hjobs⟩
  have hinOrder : jobsOf (order.arrange pods) = order.jobsInOrder pods := by
    refine eq_of_pairwise_lt hjobs (pairwise_jobsInOrder hids) ?_
    intro job
    rw [hmemJobs, mem_jobsOf, mem_jobsInOrder]
  have hblock : ∀ job, podsOf (order.arrange pods) job = podsOf (input.arrange pods) job := by
    intro job
    have hbyId' : (podsOf (input.arrange pods) job).Pairwise fun p q => p.id < q.id :=
      (pairwise_arrange_input hids).filter _
    refine eq_of_pairwise_lt (pairwise_compareOn_id (hbyId job)) (pairwise_compareOn_id hbyId') ?_
    intro p
    rw [mem_podsOf, mem_podsOf, mem_arrange, mem_arrange]
  rw [hinOrder, funext hblock, arrange_eq_flatMap horder hids]

/-- What arranging does to pods with distinct numbers. They are rearranged: in the order of their numbers if
jobs are taken as given, and job by job otherwise, for which `jobSizes` lists the sizes. -/
theorem arrange_jobByJob (order : JobOrder) {pods : List Pod} (hids : (pods.map Pod.id).Nodup) :
    (order.arrange pods).Perm pods ∧
      (order = input → (order.arrange pods).Pairwise fun p q => p.id < q.id) ∧
      (order ≠ input → order.ArrangedByJob pods (order.arrange pods)) ∧
      ∀ listed : List Pod, ListsSizes listed (jobSizes listed) := by
  refine ⟨arrange_perm order pods, ?_, fun horder => arrangedByJob_arrange horder hids,
    listsSizes_jobSizes⟩
  rintro rfl
  exact pairwise_arrange_input hids

/-- Pods of three jobs, two of which have the same size. -/
def interleavedPods : List Pod :=
  [{ Pod.ofCores 5 0 20 1 with job := "b" }, { Pod.ofCores 2 0 30 1 with job := "a" },
    { Pod.ofCores 9 0 20 1 with job := "b" }, { Pod.ofCores 1 0 50 1 with job := "c" },
    { Pod.ofCores 7 0 10 1 with job := "a" }]

/-- Interleaved pods arranged with the largest job first. -/
theorem arrange_jobByJob_interleaved :
    (JobOrder.sizeDescending.arrange interleavedPods).Perm interleavedPods ∧
      JobOrder.sizeDescending.ArrangedByJob interleavedPods
        (JobOrder.sizeDescending.arrange interleavedPods) := by
  have hids : (interleavedPods.map Pod.id).Nodup := by decide
  obtain ⟨hperm, -, hjobs, -⟩ := arrange_jobByJob .sizeDescending hids
  exact ⟨hperm, hjobs (by decide)⟩

-- The two jobs of one size stand in the order of their least numbers, although the other one is given first.
example : (JobOrder.sizeDescending.arrange interleavedPods).map Pod.id = [1, 2, 7, 5, 9] := by decide +kernel

end JobOrder

end PodPlacement
