import PodPlacement.Proofs.Ledger.Solvent
import PodPlacement.Proofs.Simulation.Audit

/-! # Looking at starts is enough

The audit looks at a node only when a record on it starts. What runs at any instant ran already when the
last one of these records started, and more may have run then. Sums of amounts do not fall when more is
added, rounded or cut at a limit as they are, so what fits at every start fits at every instant.

* `sum_within` — a part of some amounts sums up to no more than all of them.
* `exists_usage_within` — at any instant no more is in use than at the start of some record.
* `exists_equals_of_mem_dropRepeats`, `pairwise_instants` — the instants that are looked at.
* `Decided`, `violations_decided` — what the audit finds, over the whole timeline. -/

namespace PodPlacement

namespace Resources

/-! ### Sums of amounts -/

/-- Nothing is an amount. -/
theorem zero_nonneg : (0 : Cores) ≤ zero.cpu := Binary64.le_refl rfl

/-- A part of some amounts sums up to no more than all of them. -/
theorem sum_within {rs rs' : List Resources} (hsub : rs.Sublist rs') (hrs : ∀ r ∈ rs', 0 ≤ r.cpu) :
    (sum rs).Within (sum rs') := foldl_add_within hsub hrs zero_nonneg (within_self zero_nonneg)

/-- What is within something that fits fits. -/
theorem fitsWithin_of_within {r r' budget : Resources} (h : r.Within r')
    (hfits : r'.fitsWithin budget = true) : r.fitsWithin budget = true := by
  rw [fitsWithin_iff] at hfits ⊢
  exact ⟨Binary64.le_trans h.cpu hfits.1, Nat.le_trans h.gpu hfits.2.1, Nat.le_trans h.memory hfits.2.2⟩

/-- Nothing fits into whatever there is. -/
theorem zero_fitsWithin {budget : Resources} (h : 0 ≤ budget.cpu) : zero.fitsWithin budget = true :=
  fitsWithin_iff.2 ⟨Binary64.add_nonneg h (by decide +kernel), Nat.zero_le _, Nat.zero_le _⟩

end Resources

/-! ### Instants that are numerically equal -/

namespace Binary64

/-- Of two doubles that are not numerically equal, the one that ranks higher is larger or not a number. -/
theorem lt_or_isNaN_of_rank_le {x y : Binary64} (h : x.rank ≤ y.rank) (hne : ¬ x.equals y = true) :
    x < y ∨ y.isNaN = true := by
  by_cases hy : y.isNaN = true
  · exact .inr hy
  · have hynum : y.isNaN = false := by simpa using hy
    have hx : x.isNaN = false := by
      rw [← Bool.not_eq_true]
      exact fun hx => hy (isNaN_of_rank_le h hx)
    have hle : x ≤ y := le_of_rank_le h (Binary64.le_refl hynum)
    refine .inl ((not_le_iff hynum hx).1 fun hge => hne (equals_iff.2 ⟨hle, hge⟩))

end Binary64

namespace Record

/-- Whether a record runs depends on the instant only numerically. -/
theorem isRunningAt_of_equals {t u : Seconds} (h : t.equals u = true) (r : Record) :
    r.isRunningAt t = r.isRunningAt u := by
  obtain ⟨htu, hut⟩ := Binary64.equals_iff.1 h
  have hstart : r.start ≤ t ↔ r.start ≤ u :=
    ⟨fun h => Binary64.le_trans h htu, fun h => Binary64.le_trans h hut⟩
  have hfinish : t < r.finish ↔ u < r.finish :=
    ⟨fun h => Binary64.lt_of_le_of_lt hut h, fun h => Binary64.lt_of_le_of_lt htu h⟩
  rw [isRunningAt, isRunningAt]
  simp only [hstart, hfinish]

/-- Nothing runs at what is not a number. -/
theorem isRunningAt_of_isNaN {t : Seconds} (h : t.isNaN = true) (r : Record) :
    r.isRunningAt t = false := by
  rw [isRunningAt, Bool.and_eq_false_iff]
  refine .inl (decide_eq_false fun hle => ?_)
  rw [Binary64.isNaN_of_le_right hle] at h
  cases h

/-- A record runs only from its start. -/
theorem start_le_of_isRunningAt {r : Record} {t : Seconds} (h : r.isRunningAt t = true) :
    r.start ≤ t := by
  rw [isRunningAt, Bool.and_eq_true, decide_eq_true_eq] at h
  exact h.1

/-- A record that runs at an instant runs at any earlier one that is not before its start. -/
theorem isRunningAt_of_le {r : Record} {t u : Seconds} (h : r.isRunningAt t = true) (hu : r.start ≤ u)
    (hut : u ≤ t) : r.isRunningAt u = true := by
  rw [isRunningAt, Bool.and_eq_true, decide_eq_true_eq, decide_eq_true_eq] at h ⊢
  exact ⟨hu, Binary64.lt_of_le_of_lt hut h.2⟩

end Record

namespace Audit

/-! ### What is in use -/

section Usage

variable {records : List Record}

/-- What is in use depends on the instant only numerically. -/
theorem usage_of_equals {t u : Seconds} (h : t.equals u = true) (records : List Record) :
    usage records t = usage records u := by
  simp only [usage, Record.isRunningAt_of_equals h]

/-- If nothing runs, nothing is in use. -/
theorem usage_eq_zero {t : Seconds} (h : ∀ r ∈ records, r.isRunningAt t = false) :
    usage records t = .zero := by
  have hnone : records.filter (fun r => r.isRunningAt t) = [] :=
    List.filter_eq_nil_iff.2 fun r hr => by simp [h r hr]
  rw [usage, hnone]
  rfl

/-- Nothing is in use at what is not a number. -/
theorem usage_of_isNaN {t : Seconds} (h : t.isNaN = true) (records : List Record) :
    usage records t = .zero := usage_eq_zero fun r _ => Record.isRunningAt_of_isNaN h r

/-- None of what runs holds less than nothing. -/
theorem nonneg_of_mem_running (hrecords : ∀ r ∈ records, 0 ≤ r.requests.cpu) (t : Seconds) :
    ∀ r ∈ (records.filter fun r => r.isRunningAt t).map Record.requests, 0 ≤ r.cpu := by
  intro r hr
  obtain ⟨record, hrecord, rfl⟩ := List.mem_map.1 hr
  exact hrecords record (List.mem_filter.1 hrecord).1

/-- What is in use is at least nothing. -/
theorem zero_within_usage (hrecords : ∀ r ∈ records, 0 ≤ r.requests.cpu) (t : Seconds) :
    Resources.zero.Within (usage records t) :=
  Resources.sum_within (List.nil_sublist _) (nonneg_of_mem_running hrecords t)

/-- Of the records that run at an instant, if there are any, one starts last. -/
theorem exists_last_running {t : Seconds} (h : ¬ ∀ r ∈ records, r.isRunningAt t = false) :
    ∃ r ∈ records, r.isRunningAt t = true ∧
      ∀ r' ∈ records, r'.isRunningAt t = true → r'.start ≤ r.start := by
  have hsome : (records.filter fun r => r.isRunningAt t).toFinset.Nonempty := by
    rw [List.toFinset_nonempty_iff, Ne, List.filter_eq_nil_iff]
    simpa using h
  obtain ⟨r, hr, hlast⟩ := Finset.exists_max_image _ (fun r : Record => r.start.rank) hsome
  simp only [List.mem_toFinset, List.mem_filter] at hr hlast
  refine ⟨r, hr.1, hr.2, fun r' hr' hruns' => ?_⟩
  have hnum := Binary64.isNaN_of_le_left (Record.start_le_of_isRunningAt hr.2)
  exact Binary64.le_of_rank_le (hlast r' ⟨hr', hruns'⟩) (Binary64.le_refl hnum)

/-- What runs at an instant ran when the last one of it started. -/
theorem running_sublist {t : Seconds} {r : Record} (hruns : r.isRunningAt t = true)
    (hlast : ∀ r' ∈ records, r'.isRunningAt t = true → r'.start ≤ r.start) :
    (records.filter fun r => r.isRunningAt t).Sublist
      (records.filter fun r' => r'.isRunningAt r.start) := by
  have hpart : (records.filter fun r => r.isRunningAt t) =
      (records.filter fun r' => r'.isRunningAt r.start).filter fun r => r.isRunningAt t := by
    rw [List.filter_filter]
    refine List.filter_congr fun r' hr' => ?_
    cases hruns' : r'.isRunningAt t with
    | false => rfl
    | true =>
      have hthen := Record.isRunningAt_of_le hruns' (hlast r' hr' hruns') (Record.start_le_of_isRunningAt hruns)
      rw [hthen, Bool.and_self]
  rw [hpart]
  exact List.filter_sublist

/-- At any instant no more is in use than at the start of some record, as soon as there are records. -/
theorem exists_usage_within (hrecords : ∀ r ∈ records, 0 ≤ r.requests.cpu) (hne : records ≠ [])
    (t : Seconds) : ∃ r ∈ records, (usage records t).Within (usage records r.start) := by
  by_cases hidle : ∀ r ∈ records, r.isRunningAt t = false
  · obtain ⟨r, hr⟩ := List.exists_mem_of_ne_nil records hne
    rw [usage_eq_zero hidle]
    exact ⟨r, hr, zero_within_usage hrecords r.start⟩
  · obtain ⟨r, hr, hruns, hlast⟩ := exists_last_running hidle
    exact ⟨r, hr, Resources.sum_within ((running_sublist hruns hlast).map Record.requests)
      (nonneg_of_mem_running hrecords r.start)⟩

end Usage

/-! ### Repeats -/

/-- An instant that is left out numerically equals one that is kept. -/
theorem exists_equals_of_mem_go {ts : List Seconds} {t : Seconds} (ht : t ∈ ts) (last : Seconds) :
    ∃ u ∈ last :: dropRepeats.go last ts, u = t ∨ u.equals t = true := by
  induction ts generalizing last with
  | nil => cases ht
  | cons a ts ih =>
    rw [dropRepeats.go]
    by_cases heq : last.equals a = true
    · rw [if_pos heq]
      rcases List.mem_cons.1 ht with rfl | ht
      · exact ⟨last, List.mem_cons_self, .inr heq⟩
      · exact ih ht last
    · rw [if_neg heq]
      rcases List.mem_cons.1 ht with rfl | ht
      · exact ⟨t, List.mem_cons_of_mem _ List.mem_cons_self, .inl rfl⟩
      · obtain ⟨u, hu, hut⟩ := ih ht a
        exact ⟨u, List.mem_cons_of_mem _ hu, hut⟩

/-- An instant that is left out numerically equals one that is kept. -/
theorem exists_equals_of_mem_dropRepeats {ts : List Seconds} {t : Seconds} (ht : t ∈ ts) :
    ∃ u ∈ dropRepeats ts, u = t ∨ u.equals t = true := by
  cases ts with
  | nil => cases ht
  | cons a ts =>
    rcases List.mem_cons.1 ht with rfl | ht
    · exact ⟨t, List.mem_cons_self, .inl rfl⟩
    · exact exists_equals_of_mem_go ht a

/-- Of instants in order, the ones that are kept increase until they are no numbers. -/
theorem pairwise_go {ts : List Seconds} {last : Seconds}
    (h : (last :: ts).Pairwise fun t u => t.rank ≤ u.rank) :
    (last :: dropRepeats.go last ts).Pairwise fun t u => t < u ∨ u.isNaN = true := by
  induction ts generalizing last with
  | nil => exact List.pairwise_singleton _ _
  | cons a ts ih =>
    obtain ⟨hlast, hts⟩ := List.pairwise_cons.1 h
    rw [dropRepeats.go]
    by_cases heq : last.equals a = true
    · rw [if_pos heq]
      exact ih (List.pairwise_cons.2 ⟨fun u hu => hlast u (List.mem_cons_of_mem a hu), hts.of_cons⟩)
    · rw [if_neg heq]
      have hrest := ih hts
      refine List.pairwise_cons.2 ⟨?_, hrest⟩
      have hfirst := Binary64.lt_or_isNaN_of_rank_le (hlast a List.mem_cons_self) heq
      intro u hu
      rcases List.mem_cons.1 hu with rfl | hu
      · exact hfirst
      · rcases List.rel_of_pairwise_cons hrest hu with hlt | hnan
        · rcases hfirst with hfirst | hnan
          · exact .inl (Binary64.lt_of_lt_of_le hfirst (Binary64.le_of_lt hlt))
          · rw [(Binary64.lt_iff.1 hlt).1] at hnan
            cases hnan
        · exact .inr hnan

/-- The instants that are looked at increase until they are no numbers. -/
theorem pairwise_instants (records : List Record) :
    (instants records).Pairwise fun t u => t < u ∨ u.isNaN = true := by
  have hsorted := (pairwise_sortBy (records.map Record.start)).imp
    fun {t u} (h : (compare t u).isLE) => Binary64.isLE_compare_iff.1 h
  rw [instants]
  cases hts : sortBy compare (records.map Record.start) with
  | nil => exact .nil
  | cons t ts =>
    rw [hts] at hsorted
    exact pairwise_go hsorted

/-! ### Violations -/

section Violations

variable {schedule : Schedule} {nodes : List Ledger}

/-- What fits whenever a record starts fits always, as soon as there are records. -/
theorem fits_of_fits_instants {records : List Record}
    (hrecords : ∀ r ∈ records, 0 ≤ r.requests.cpu) (hne : records ≠ []) {capacity : Resources}
    (h : ∀ t ∈ instants records, (usage records t).fitsWithin capacity = true) (t : Seconds) :
    (usage records t).fitsWithin capacity = true := by
  obtain ⟨r, hr, hwithin⟩ := exists_usage_within hrecords hne t
  refine Resources.fitsWithin_of_within hwithin ?_
  have hstart : r.start ∈ sortBy compare (records.map Record.start) :=
    (sortBy_perm _ _).mem_iff.2 (List.mem_map_of_mem hr)
  obtain ⟨u, hu, rfl | hequal⟩ := exists_equals_of_mem_dropRepeats hstart
  · exact h _ hu
  · rw [← usage_of_equals hequal]
    exact h u hu

/-- The audit finds nothing on a node exactly if everything fits at the starts of its records. -/
theorem violationsOn_eq_nil_iff {l : Ledger} : violationsOn schedule l = [] ↔
    ∀ t ∈ instants (schedule.recordsOn l.name),
      (usage (schedule.recordsOn l.name) t).fitsWithin l.capacity = true := by
  rw [violationsOn, List.filterMap_eq_nil_iff]
  refine forall_congr' fun t => imp_congr_right fun _ => ?_
  by_cases hfits : (usage (schedule.recordsOn l.name) t).fitsWithin l.capacity = true
  · simp [hfits]
  · simp [hfits]

/-- The audit finds nothing exactly if on every node with records everything fits at every instant. -/
theorem violations_eq_nil_iff (h : ∀ r ∈ schedule.records, 0 ≤ r.requests.cpu) :
    violations schedule nodes = [] ↔ ∀ l ∈ nodes, schedule.recordsOn l.name ≠ [] →
      ∀ t, (usage (schedule.recordsOn l.name) t).fitsWithin l.capacity = true := by
  simp only [violations, List.flatMap_eq_nil_iff, violationsOn_eq_nil_iff]
  refine forall₂_congr fun l _ => ⟨fun hfits hne => ?_, fun hfits t ht => ?_⟩
  · exact fits_of_fits_instants (fun r hr => h r (List.mem_filter.1 hr).1) hne hfits
  · refine hfits ?_ t
    rintro hnone
    rw [hnone] at ht
    cases ht

/-- The violations on a node with an amount of CPU are listed in time. -/
theorem pairwise_violationsOn {l : Ledger} (hcapacity : 0 ≤ l.capacity.cpu) (schedule : Schedule) :
    (violationsOn schedule l).Pairwise fun v w => v.instant < w.instant := by
  refine List.Pairwise.filterMap _ ?_ (pairwise_instants (schedule.recordsOn l.name))
  intro t u htu v hv w hw
  dsimp only at hv hw
  split at hv
  · cases hv
  · cases hv
    split at hw
    · cases hw
    · rename_i hfits
      cases hw
      refine htu.resolve_right fun hnan => hfits ?_
      -- At what is not a number nothing is in use, and that fits.
      rw [usage_of_isNaN hnan]
      exact Resources.zero_fitsWithin hcapacity

/-- What the audit of a schedule says of some nodes, over the whole timeline. -/
structure Decided (schedule : Schedule) (nodes : List Ledger) : Prop where
  /-- With amounts of CPU as capacities, it finds nothing exactly if on every node the sum of what runs fits
  at every instant. -/
  complete : (∀ l ∈ nodes, 0 ≤ l.capacity.cpu) → (violations schedule nodes = [] ↔
    ∀ l ∈ nodes, ∀ t, (Resources.sum ((schedule.runningOn l.name t).map Record.requests)).fitsWithin
      l.capacity = true)
  /-- Whatever the capacities are, that is so for the nodes that have records. -/
  recorded : violations schedule nodes = [] ↔
    ∀ l ∈ nodes, schedule.recordsOn l.name ≠ [] → ∀ t,
      (Resources.sum ((schedule.runningOn l.name t).map Record.requests)).fitsWithin l.capacity = true
  /-- What it finds on a node is the sum of what runs at an instant and does not fit. -/
  real : ∀ v ∈ violations schedule nodes, ∃ l ∈ nodes, v.node = l.name ∧ v.capacity = l.capacity ∧
    v.inUse = .sum ((schedule.runningOn l.name v.instant).map Record.requests) ∧
      v.inUse.fitsWithin v.capacity = false
  /-- On each node it goes forward in time. -/
  increasing : ∀ l ∈ nodes, 0 ≤ l.capacity.cpu →
    (violationsOn schedule l).Pairwise fun v w => v.instant < w.instant

/-- If no request is negative, the audit decides whether a node is ever given more than it has. For nodes without
records that takes capacities that are amounts, as `Resources.ofAmounts` makes them. -/
theorem violations_decided (h : ∀ r ∈ schedule.records, 0 ≤ r.requests.cpu) (nodes : List Ledger) :
    Decided schedule nodes where
  complete := by
    intro hcapacity
    rw [violations_eq_nil_iff h]
    refine forall₂_congr fun l hl => ⟨fun hfits t => ?_, fun hfits _ => hfits⟩
    by_cases hne : schedule.recordsOn l.name = []
    · -- Nothing is ever in use on a node without records.
      rw [← usage_recordsOn, hne]
      exact Resources.zero_fitsWithin (hcapacity l hl)
    · exact hfits hne t
  recorded := violations_eq_nil_iff h
  real := by
    intro v hv
    obtain ⟨l, hl, t, rfl, hnot⟩ := mem_violations hv
    exact ⟨l, hl, rfl, rfl, rfl, by simpa using hnot⟩
  increasing _ _ hcapacity := pairwise_violationsOn hcapacity schedule

/-- Two pods that overlap on a node. -/
def overlap : Schedule :=
  ⟨[.ofPod (.ofCores 1 0 10 2) "a" 0 10, .ofPod (.ofCores 2 5 10 2) "a" 5 15]⟩

/-- What the audit says of the two pods on a node of three cores. -/
theorem violations_decided_overlap : Decided overlap [.idle "a" (.ofCpu 3)] :=
  violations_decided (by decide +kernel) _

-- They do not fit from the start of the second one.
example : (violations overlap [.idle "a" (.ofCpu 3)]).map Violation.instant = [5] := by decide +kernel

/-- Two pods on a node that start at what is no number. -/
def unstarted : Schedule :=
  ⟨[.ofPod (.ofCores 1 0 10 2) "a" .nan 10, .ofPod (.ofCores 2 5 10 2) "a" .nan 15]⟩

/-- Not even nothing fits into a capacity with a negative number of cores, which `Resources.ofAmounts` would not
make. The audit notices that only where there are records, and once for each start that is no number. -/
theorem violations_idle_of_no_amount :
    violations .empty [.idle "a" ⟨-1, 0, 0⟩] = [] ∧
      (Resources.sum ((Schedule.empty.runningOn "a" 0).map Record.requests)).fitsWithin ⟨-1, 0, 0⟩ = false ∧
      (∀ r ∈ unstarted.records, 0 ≤ r.requests.cpu) ∧
      (violations unstarted [.idle "a" ⟨-1, 0, 0⟩]).map Violation.instant = [.nan, .nan] ∧
      ¬ (Binary64.nan : Seconds) < .nan := by
  decide +kernel

end Violations

end Audit

end PodPlacement
