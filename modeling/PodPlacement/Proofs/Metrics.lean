import Mathlib.Data.Finset.Card
import Mathlib.Data.List.Induction
import PodPlacement.Proofs.Number.Extreme
import PodPlacement.Proofs.Sorting
import PodPlacement.Schedule

/-! # Metrics of a schedule

The makespan, the completion times of the jobs and their extremes are computed apart from each other: the
makespan from zero on, the time of a job from its first record on, the extremes of these times from the two
infinities on. As long as the records finish at numbers from zero on, all of them are what they are called, and
they agree. Whatever the records are, the makespan and the completion times can be kept up to date record by
record.

* `latest_mem`, `le_latest`, `latest_concat`, `latest_perm` — the latest of some instants.
* `makespan_push` — the makespan grows with each record.
* `enter`, `completionTimes_push`, `completionTimes_eq_foldl` — so do the completion times.
* `max_equals_makespan`, `min_mem_completionTimes` — the extremes of the completion times.
* `Measured`, `pushed_measured` — the metrics of a schedule in terms of its records, in whatever order they were
  pushed. -/

namespace PodPlacement

namespace Schedule

/-! ### The latest of some instants -/

variable {ts us : List Seconds}

/-- The latest instant is the largest one, where nothing at all gives way to any. -/
theorem latest_eq (h : ts ≠ []) : latest ts = ts.foldl Binary64.maxNum .nan := by
  cases ts with
  | nil => exact absurd rfl h
  | cons t ts => rw [latest, List.foldl_cons, Binary64.maxNum_nan_left]

/-- The order of the instants does not matter. -/
theorem latest_perm (h : ts.Perm us) : latest ts = latest us := by
  by_cases hnil : ts = []
  · subst hnil
    rw [h.nil_eq]
  · have hnil' : us ≠ [] := fun hus => hnil (h.trans (.of_eq hus)).eq_nil
    rw [latest_eq hnil, latest_eq hnil', h.foldl_eq]

/-- The latest of some instants is one of them. -/
theorem latest_mem (h : ts ≠ []) : latest ts ∈ ts := by
  cases ts with
  | nil => exact absurd rfl h
  | cons t ts => exact foldl_mem_cons Binary64.maxNum_eq_or t ts

/-- None of some numbers is after the latest of them. -/
theorem le_latest (hnum : ∀ t ∈ ts, t.isNaN = false) : ∀ t ∈ ts, t ≤ latest ts := by
  cases ts with
  | nil => exact fun t ht => absurd ht List.not_mem_nil
  | cons t ts =>
    obtain ⟨ht, hts⟩ := List.forall_mem_cons.1 hnum
    exact Binary64.le_foldl_maxNum ht hts

/-- The latest of some instants and one more is the larger one of the latest and the new one. -/
theorem latest_concat (h : ts ≠ []) (t : Seconds) : latest (ts ++ [t]) = (latest ts).maxNum t := by
  cases ts with
  | nil => exact absurd rfl h
  | cons u ts => rw [List.cons_append, latest, latest, List.foldl_concat]

/-! ### Pushing -/

variable {s s' : Schedule} {records : List Record} {job : String} {t : Seconds}

/-- Pushed records stand at the end, in turn. -/
@[simp] theorem records_foldl_push (s : Schedule) (records : List Record) :
    (records.foldl push s).records = s.records ++ records := by
  induction records generalizing s with
  | nil => exact (List.append_nil _).symm
  | cons r rs ih => rw [List.foldl_cons, ih, push, List.append_assoc, List.singleton_append]

/-- A pushed record may raise the makespan to its finish. -/
theorem makespan_push (s : Schedule) (r : Record) : (s.push r).makespan = s.makespan.maxNum r.finish := by
  rw [makespan, push, List.map_append, List.foldl_append]
  rfl

/-! ### Completion times -/

/-- The jobs are those of the records. -/
theorem mem_jobs : job ∈ s.jobs ↔ ∃ r ∈ s.records, r.job = job := by
  rw [jobs, (sortBy_perm compare _).mem_iff, List.mem_eraseDups, List.mem_map]

/-- The jobs are listed in the order of their names, each once. -/
theorem pairwise_jobs (s : Schedule) : s.jobs.Pairwise fun a b => compare a b = .lt :=
  pairwise_lt_sortBy (nodup_eraseDups _)

/-- A finish of a job is that of one of its records. -/
theorem mem_finishesOf : t ∈ s.finishesOf job ↔ ∃ r ∈ s.records, r.job = job ∧ r.finish = t := by
  simp only [finishesOf, List.mem_map, List.mem_filter, decide_eq_true_eq, and_assoc]

/-- A job with records has finishes. -/
theorem finishesOf_ne_nil (h : job ∈ s.jobs) : s.finishesOf job ≠ [] := by
  obtain ⟨r, hr, hjob⟩ := mem_jobs.1 h
  exact List.ne_nil_of_mem (mem_finishesOf.2 ⟨r, hr, hjob, rfl⟩)

/-- There is a completion time for each job. -/
@[simp] theorem map_fst_completionTimes (s : Schedule) : s.completionTimes.map Prod.fst = s.jobs := by
  rw [completionTimes, List.map_map]
  exact List.map_id _

/-- The completion time of a job is its latest finish. -/
theorem mem_completionTimes :
    (job, t) ∈ s.completionTimes ↔ job ∈ s.jobs ∧ latest (s.finishesOf job) = t := by
  simp only [completionTimes, List.mem_map, Prod.mk.injEq]
  constructor
  · rintro ⟨job', hjob', rfl, htime⟩
    exact ⟨hjob', htime⟩
  · rintro ⟨hjob, htime⟩
    exact ⟨job, hjob, rfl, htime⟩

/-- A completion time is the finish of a record of the job. -/
theorem exists_record_of_mem_completionTimes (h : (job, t) ∈ s.completionTimes) :
    ∃ r ∈ s.records, r.job = job ∧ r.finish = t := by
  obtain ⟨hjob, rfl⟩ := mem_completionTimes.1 h
  exact mem_finishesOf.1 (latest_mem (finishesOf_ne_nil hjob))

/-- There are no completion times exactly if there are no records. -/
theorem completionTimes_eq_nil : s.completionTimes = [] ↔ s.records = [] := by
  rw [completionTimes, List.map_eq_nil_iff, List.eq_nil_iff_forall_not_mem, List.eq_nil_iff_forall_not_mem]
  constructor
  · intro h r hr
    exact h r.job (mem_jobs.2 ⟨r, hr, rfl⟩)
  · intro h job hjob
    obtain ⟨r, hr, -⟩ := mem_jobs.1 hjob
    exact h r hr

/-! ### Entering a record -/

/-- The jobs after one more record: a job that is new is inserted by its name. -/
theorem jobs_push (s : Schedule) (r : Record) :
    (s.push r).jobs = if r.job ∈ s.jobs then s.jobs else insertBy compare r.job s.jobs := by
  have hmem : r.job ∈ s.records.map Record.job ↔ r.job ∈ s.jobs := by rw [mem_jobs, List.mem_map]
  rw [jobs, push, List.map_append, List.map_singleton, eraseDups_concat]
  by_cases h : r.job ∈ s.jobs
  · rw [if_pos h, if_pos (hmem.2 h), jobs]
  · rw [if_neg h, if_neg (mt hmem.1 h), jobs, ← sortBy_cons]
    exact sortBy_eq_of_perm List.perm_append_comm fun _ _ _ _ heq => Std.LawfulEqCmp.eq_of_compare heq

/-- A record adds its finish to those of its job. -/
theorem finishesOf_push (s : Schedule) (r : Record) (job : String) :
    (s.push r).finishesOf job = s.finishesOf job ++ if r.job = job then [r.finish] else [] := by
  rw [finishesOf, push, List.filter_append, List.map_append, ← finishesOf]
  split <;> simp [*]

/-- A job without records has no finishes. -/
theorem finishesOf_eq_nil (h : job ∉ s.jobs) : s.finishesOf job = [] := by
  rw [List.eq_nil_iff_forall_not_mem]
  intro t ht
  obtain ⟨r, hr, hjob, -⟩ := mem_finishesOf.1 ht
  exact h (mem_jobs.2 ⟨r, hr, hjob⟩)

/-- Completion times with one more record. The time of its job rises to its finish; a job without a time gets the
finish, in the place that belongs to its name. -/
def enter (times : List (String × Seconds)) (r : Record) : List (String × Seconds) :=
  if r.job ∈ times.map Prod.fst then
    times.map fun entry => (entry.1, if r.job = entry.1 then entry.2.maxNum r.finish else entry.2)
  else insertBy (compareOn Prod.fst) (r.job, r.finish) times

/-- A pushed record is entered into the completion times. -/
theorem completionTimes_push (s : Schedule) (r : Record) :
    (s.push r).completionTimes = enter s.completionTimes r := by
  rw [enter, map_fst_completionTimes, completionTimes, completionTimes, jobs_push]
  by_cases h : r.job ∈ s.jobs
  · -- The job has a time already, and no other entry changes.
    rw [if_pos h, if_pos h, List.map_map]
    refine List.map_congr_left fun job hjob => ?_
    simp only [Function.comp_apply, finishesOf_push]
    by_cases hsame : r.job = job
    · rw [if_pos hsame, if_pos hsame, latest_concat (finishesOf_ne_nil hjob)]
    · rw [if_neg hsame, if_neg hsame, List.append_nil]
  · -- The job is new, and its entry goes where its name goes among the jobs.
    rw [if_neg h, if_neg h]
    have hinsert := map_insertBy (compareOn Prod.fst) (fun job => (job, latest ((s.push r).finishesOf job)))
      r.job s.jobs
    refine hinsert.trans ?_
    congr 1
    · rw [finishesOf_push, finishesOf_eq_nil h, if_pos rfl]
      rfl
    · refine List.map_congr_left fun job hjob => ?_
      have hother : r.job ≠ job := fun hsame => h (hsame ▸ hjob)
      rw [finishesOf_push, if_neg hother, List.append_nil]

/-- The completion times are those of the records entered one after another. -/
theorem completionTimes_eq_foldl (s : Schedule) : s.completionTimes = s.records.foldl enter [] := by
  obtain ⟨records⟩ := s
  induction records using List.reverseRecOn with
  | nil => rfl
  | append_singleton records r ih =>
    rw [List.foldl_concat, ← ih]
    exact completionTimes_push ⟨records⟩ r

/-! ### Summaries -/

/-- There is a summary exactly if there are records. -/
theorem completionSummary?_eq_none : s.completionSummary? = none ↔ s.records = [] := by
  rw [← completionTimes_eq_nil, completionSummary?]
  simp

/-- A summary is made of records. It counts the completion times and gives their extremes. -/
theorem of_completionSummary? {c : CompletionSummary} (h : s.completionSummary? = some c) :
    s.records ≠ [] ∧ c.jobs = s.completionTimes.length ∧ c.makespan = s.makespan ∧
      c.max = (s.completionTimes.map Prod.snd).foldl Binary64.maxNum (-.infinity) ∧
      c.min = (s.completionTimes.map Prod.snd).foldl Binary64.minNum .infinity := by
  refine ⟨fun hnil => by simp [completionSummary?_eq_none.2 hnil] at h, ?_⟩
  rw [completionSummary?] at h
  split at h
  · cases h
  · rw [Option.some.injEq] at h
    subst h
    exact ⟨List.length_map _, rfl, rfl, rfl⟩

/-! ### Records that finish at numbers from zero on -/

section Finish

variable (hfinish : ∀ r ∈ s.records, 0 ≤ r.finish)

include hfinish

/-- No record of a job finishes after the completion time of the job. -/
theorem le_completionTime (h : (job, t) ∈ s.completionTimes) :
    ∀ r ∈ s.records, r.job = job → r.finish ≤ t := by
  obtain ⟨-, rfl⟩ := mem_completionTimes.1 h
  intro r hr hjob
  refine le_latest ?_ r.finish (mem_finishesOf.2 ⟨r, hr, hjob, rfl⟩)
  intro u hu
  obtain ⟨r', hr', -, rfl⟩ := mem_finishesOf.1 hu
  exact Binary64.isNaN_of_le_right (hfinish r' hr')

/-- No record finishes after the makespan. -/
theorem le_makespan : (0 : Seconds) ≤ s.makespan ∧ ∀ r ∈ s.records, r.finish ≤ s.makespan := by
  have hnum : ∀ t ∈ s.records.map Record.finish, t.isNaN = false := by
    rw [List.forall_mem_map]
    exact fun r hr => Binary64.isNaN_of_le_right (hfinish r hr)
  obtain ⟨hzero, hle⟩ := List.forall_mem_cons.1 (Binary64.le_foldl_maxNum (t := 0) rfl hnum)
  exact ⟨hzero, List.forall_mem_map.1 hle⟩

/-- The makespan is the finish of a record, if there are records. -/
theorem exists_finish_equals_makespan (hne : s.records ≠ []) :
    ∃ r ∈ s.records, r.finish.equals s.makespan = true := by
  obtain ⟨hzero, hle⟩ := le_makespan hfinish
  have hmem : s.makespan ∈ 0 :: s.records.map Record.finish := foldl_mem_cons Binary64.maxNum_eq_or _ _
  rcases List.mem_cons.1 hmem with hsame | hmem
  · -- If the makespan is the zero it starts from, every record finishes at a zero, be it the negative one.
    obtain ⟨r, hr⟩ := List.exists_mem_of_ne_nil _ hne
    refine ⟨r, hr, Binary64.equals_iff.2 ⟨hle r hr, ?_⟩⟩
    rw [hsame]
    exact hfinish r hr
  · obtain ⟨r, hr, hsame⟩ := List.mem_map.1 hmem
    refine ⟨r, hr, Binary64.equals_iff.2 ⟨hle r hr, ?_⟩⟩
    rw [hsame]
    exact Binary64.le_refl (Binary64.isNaN_of_le_right hzero)

/-- A completion time is an instant from zero to the makespan. -/
theorem completionTime_bounds (h : t ∈ s.completionTimes.map Prod.snd) : 0 ≤ t ∧ t ≤ s.makespan := by
  obtain ⟨⟨job, u⟩, hmem, rfl⟩ := List.mem_map.1 h
  obtain ⟨r, hr, -, hsame⟩ := exists_record_of_mem_completionTimes hmem
  subst hsame
  exact ⟨hfinish r hr, (le_makespan hfinish).2 r hr⟩

/-- The largest completion time is the makespan, if there are records. -/
theorem max_equals_makespan (hne : s.records ≠ []) :
    ((s.completionTimes.map Prod.snd).foldl Binary64.maxNum (-.infinity)).equals s.makespan = true := by
  have hbounds := fun t => completionTime_bounds (t := t) hfinish
  have hnum : ∀ t ∈ s.completionTimes.map Prod.snd, t.isNaN = false :=
    fun t ht => Binary64.isNaN_of_le_right (hbounds t ht).1
  have hspan := Binary64.isNaN_of_le_right (le_makespan hfinish).1
  rw [Binary64.equals_iff]
  constructor
  · have hmem := foldl_mem_cons Binary64.maxNum_eq_or (-.infinity) (s.completionTimes.map Prod.snd)
    rcases List.mem_cons.1 hmem with hsame | hmem
    · rw [hsame]
      exact Binary64.neg_infinity_le hspan
    · exact (hbounds _ hmem).2
  · -- The last record belongs to a job, and no job is completed after the last one.
    obtain ⟨r, hr, hlast⟩ := exists_finish_equals_makespan hfinish hne
    have hjob : (r.job, latest (s.finishesOf r.job)) ∈ s.completionTimes :=
      mem_completionTimes.2 ⟨mem_jobs.2 ⟨r, hr, rfl⟩, rfl⟩
    have hmax := Binary64.le_foldl_maxNum (t := -.infinity) rfl hnum
    have hcompleted := le_completionTime hfinish hjob r hr rfl
    exact Binary64.le_trans (Binary64.equals_iff.1 hlast).2
      (Binary64.le_trans hcompleted (hmax _ (List.mem_cons_of_mem _ (List.mem_map_of_mem hjob))))

/-- The smallest completion time is one of them, and none is below it, if there are records. -/
theorem min_mem_completionTimes (hne : s.records ≠ []) :
    (s.completionTimes.map Prod.snd).foldl Binary64.minNum .infinity ∈ s.completionTimes.map Prod.snd ∧
      ∀ t ∈ s.completionTimes.map Prod.snd,
        (s.completionTimes.map Prod.snd).foldl Binary64.minNum .infinity ≤ t := by
  have hnum : ∀ t ∈ s.completionTimes.map Prod.snd, t.isNaN = false :=
    fun t ht => Binary64.isNaN_of_le_right (completionTime_bounds hfinish ht).1
  have hle := (List.forall_mem_cons.1 (Binary64.foldl_minNum_le (t := .infinity) rfl hnum)).2
  refine ⟨?_, hle⟩
  have hmem := foldl_mem_cons Binary64.minNum_eq_or .infinity (s.completionTimes.map Prod.snd)
  rcases List.mem_cons.1 hmem with hsame | hmem
  · -- If the smallest one is the infinity the search starts from, all completion times are infinite.
    have hsome : s.completionTimes.map Prod.snd ≠ [] := by
      rw [Ne, List.map_eq_nil_iff, completionTimes_eq_nil]
      exact hne
    obtain ⟨t, ht⟩ := List.exists_mem_of_ne_nil _ hsome
    have hinf := hle t ht
    rw [hsame] at hinf ⊢
    rwa [← Binary64.eq_infinity_of_le hinf]
  · exact hmem

end Finish

/-! ### The order of pushing -/

/-- The same records give the same jobs. -/
theorem jobs_perm (h : s.records.Perm s'.records) : s.jobs = s'.jobs := by
  refine eq_of_pairwise_lt (pairwise_jobs s) (pairwise_jobs s') ?_
  intro job
  simp only [mem_jobs, h.mem_iff]

/-- The same records give the same completion times. -/
theorem completionTimes_perm (h : s.records.Perm s'.records) : s.completionTimes = s'.completionTimes := by
  rw [completionTimes, completionTimes, jobs_perm h]
  refine List.map_congr_left ?_
  intro job _
  have hfinishes : (s.finishesOf job).Perm (s'.finishesOf job) := (h.filter _).map Record.finish
  rw [latest_perm hfinishes]

/-- The same records give the same makespan. -/
theorem makespan_perm (h : s.records.Perm s'.records) : s.makespan = s'.makespan :=
  (h.map Record.finish).foldl_eq 0

/-- The same records give the same summary. -/
theorem completionSummary?_perm (h : s.records.Perm s'.records) :
    s.completionSummary? = s'.completionSummary? := by
  rw [completionSummary?, completionSummary?, completionTimes_perm h, makespan_perm h]

/-! ### The metrics -/

/-- The metrics of a schedule, in terms of the records it consists of. -/
structure Measured (records : List Record) (s : Schedule) : Prop where
  /-- Each job has one completion time; they are listed by the names of the jobs. -/
  jobs : (s.completionTimes.map Prod.fst).Pairwise fun a b => compare a b = .lt
  /-- The jobs are those of the records. -/
  mem_jobs : ∀ job, job ∈ s.completionTimes.map Prod.fst ↔ ∃ r ∈ records, r.job = job
  /-- A job is completed when one of its records finishes. -/
  completion_mem : ∀ job t, (job, t) ∈ s.completionTimes → ∃ r ∈ records, r.job = job ∧ r.finish = t
  /-- None of its records finishes later. -/
  le_completion : ∀ job t, (job, t) ∈ s.completionTimes → ∀ r ∈ records, r.job = job → r.finish ≤ t
  /-- One more record raises the time of its job to its finish, or is the first one of the job. -/
  completion_push : ∀ r, (s.push r).completionTimes = enter s.completionTimes r
  /-- One more record raises the makespan to its finish, unless it is there already. -/
  makespan_push : ∀ r, (s.push r).makespan = s.makespan.maxNum r.finish
  /-- Without records the makespan is zero. -/
  makespan_nil : records = [] → s.makespan = 0
  /-- Otherwise it is numerically the finish of a record. -/
  makespan_mem : records ≠ [] → ∃ r ∈ records, r.finish.equals s.makespan = true
  /-- No record finishes later. -/
  le_makespan : ∀ r ∈ records, r.finish ≤ s.makespan
  /-- There is a summary exactly if there are records. -/
  summary_none : s.completionSummary? = none ↔ records = []
  /-- The summary counts the jobs. -/
  summary_jobs : ∀ c ∈ s.completionSummary?, c.jobs = (records.map Record.job).toFinset.card
  /-- It gives the makespan, and numerically this is the largest completion time. -/
  summary_max : ∀ c ∈ s.completionSummary?, c.makespan = s.makespan ∧ c.max.equals s.makespan = true
  /-- It gives the smallest completion time. -/
  summary_min : ∀ c ∈ s.completionSummary?, c.min ∈ s.completionTimes.map Prod.snd ∧
    ∀ t ∈ s.completionTimes.map Prod.snd, c.min ≤ t

/-- The metrics of a schedule are what they are called. -/
theorem measured (hfinish : ∀ r ∈ s.records, 0 ≤ r.finish) : Measured s.records s where
  jobs := by
    rw [map_fst_completionTimes]
    exact pairwise_jobs s
  mem_jobs job := by rw [map_fst_completionTimes, Schedule.mem_jobs]
  completion_mem _ _ h := exists_record_of_mem_completionTimes h
  le_completion _ _ h := le_completionTime hfinish h
  completion_push := completionTimes_push s
  makespan_push := Schedule.makespan_push s
  makespan_nil h := by
    rw [makespan, h]
    rfl
  makespan_mem := exists_finish_equals_makespan hfinish
  le_makespan := (Schedule.le_makespan hfinish).2
  summary_none := completionSummary?_eq_none
  summary_jobs c hc := by
    have hnodup : s.jobs.Nodup := (pairwise_jobs s).imp fun hlt heq => by simp [heq] at hlt
    have hsame : (s.records.map Record.job).toFinset = s.jobs.toFinset := by
      ext job
      rw [List.mem_toFinset, List.mem_toFinset, Schedule.mem_jobs, List.mem_map]
    rw [(of_completionSummary? hc).2.1, hsame, List.toFinset_card_of_nodup hnodup, completionTimes,
      List.length_map]
  summary_max c hc := by
    obtain ⟨hne, -, hspan, hmax, -⟩ := of_completionSummary? hc
    rw [hmax]
    exact ⟨hspan, max_equals_makespan hfinish hne⟩
  summary_min c hc := by
    obtain ⟨hne, -, -, -, hmin⟩ := of_completionSummary? hc
    rw [hmin]
    exact min_mem_completionTimes hfinish hne

/-- Whatever records are pushed that finish at numbers from zero on, the metrics of the schedule are what they
are called and agree with each other, and none of them depends on the order in which the records were pushed. -/
theorem pushed_measured {records : List Record} (hfinish : ∀ r ∈ records, 0 ≤ r.finish) :
    Measured records (records.foldl push empty) ∧ ∀ reordered : List Record, reordered.Perm records →
      (reordered.foldl push empty).completionTimes = (records.foldl push empty).completionTimes ∧
      (reordered.foldl push empty).makespan = (records.foldl push empty).makespan ∧
      (reordered.foldl push empty).completionSummary? = (records.foldl push empty).completionSummary? := by
  have hrecords (rs : List Record) : (rs.foldl push empty).records = rs := records_foldl_push empty rs
  constructor
  · have hall := measured (s := records.foldl push empty) (by rwa [hrecords])
    rwa [hrecords] at hall
  · intro reordered hperm
    have hsame : (reordered.foldl push empty).records.Perm (records.foldl push empty).records := by
      rwa [hrecords, hrecords]
    exact ⟨completionTimes_perm hsame, makespan_perm hsame, completionSummary?_perm hsame⟩

/-- The record of a pod of a job that runs from zero to a finish. -/
def recordUntil (job : String) (finish : Seconds) : Record :=
  ⟨job ++ "-pod", job, "n", 0, 0, finish, .ofCpu 1, .ofCpu 1⟩

/-- Records of three jobs. Two jobs take turns, and one finishes at a negative zero. -/
def turns : List Record :=
  [recordUntil "b" 90, recordUntil "a" 30, recordUntil "c" (-0), recordUntil "a" 60, recordUntil "b" 20]

/-- The metrics of these records, and of the same records from the last to the first. -/
theorem pushed_measured_turns :
    Measured turns (turns.foldl push empty) ∧
      (turns.foldl push empty).completionTimes = [("a", 60), ("b", 90), ("c", -0)] ∧
      (turns.reverse.foldl push empty).completionSummary? = (turns.foldl push empty).completionSummary? := by
  have hfinish : ∀ r ∈ turns, 0 ≤ r.finish := by decide +kernel
  obtain ⟨hmeasured, hreordered⟩ := pushed_measured hfinish
  exact ⟨hmeasured, by decide +kernel, (hreordered turns.reverse turns.reverse_perm).2.2⟩

end Schedule

end PodPlacement
