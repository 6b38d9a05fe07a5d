import PodPlacement.Proofs.Ledger.History

/-! # Refused assignments

To decide on an assignment, a ledger is advanced to the start, and if the pod is refused it stays there. So
a refusal leaves the ledger as it was only if none of its pods has finished by the start and it had reached
the start before. What it leaves behind otherwise is what any operation at the start would have done: no
operation that is made then or later can tell whether the assignment was tried.

* `ReachedZero` — ledgers that begin idle stand at an instant from zero on.
* `advance_advance` — such a ledger may be advanced in two steps.
* `Refused`, `assign_refused` — what a refused assignment does to a ledger.
* `exists_changed_of_refused` — it may change what is available, what runs, and the instant reached. -/

namespace PodPlacement

namespace Ledger

/-! ### Instants that are reached -/

/-- The ledger stands at a number that ranks from zero on. -/
def ReachedZero (l : Ledger) : Prop := l.advancedTo.isNaN = false ∧ 0 ≤ l.advancedTo.rank

variable {l : Ledger} {t u : Seconds}

/-- An idle ledger stands at zero. -/
theorem reachedZero_idle (name : String) (capacity : Resources) : (idle name capacity).ReachedZero := by
  have hrank : 0 ≤ (0 : Seconds).rank := by decide +kernel
  exact ⟨rfl, hrank⟩

/-- Advancing does not go back below zero. -/
theorem ReachedZero.advance (h : l.ReachedZero) (t : Seconds) : (l.advance t).ReachedZero := by
  obtain ⟨hnum, hzero⟩ := h
  refine ⟨Binary64.isNaN_maxNum_left hnum t, ?_⟩
  rw [advancedTo_advance]
  by_cases hlt : l.advancedTo < t
  · have hrank := (Binary64.lt_iff_rank_lt hnum (Binary64.lt_iff.1 hlt).2.1 hzero).1 hlt
    rcases Binary64.maxNum_eq_or l.advancedTo t with hmax | hmax <;> rw [hmax]
    · exact hzero
    · exact Int.le_trans hzero (Int.le_of_lt hrank)
  · rwa [(Binary64.maxNum_eq_left_iff hnum hzero).2 hlt]

/-- A ledger that has reached zero does not go back below it. -/
theorem invariant_reachedZero (K : Resources → Prop) : Invariant K fun _ l => l.ReachedZero where
  advance t h := h.advance t
  start _ h _ := h

/-! ### Advancing in two steps -/

/-- A ledger that is advanced to an earlier instant first is advanced alike. -/
theorem advance_advance (h : l.ReachedZero) (htu : t ≤ u) : (l.advance t).advance u = l.advance u := by
  have himp : ∀ p : RunningPod, decide (p.finish ≤ t) = true → decide (p.finish ≤ u) = true := by
    intro p hp
    exact decide_eq_true (Binary64.le_trans (of_decide_eq_true hp) htu)
  have hsplit : l.completedBy u = ((l.completedBy t).1 ++ ((l.advance t).completedBy u).1,
      ((l.advance t).completedBy u).2) := Heap.popWhile_popWhile himp l.running
  have havailable : ((l.advance t).advance u).available = (l.advance u).available := by
    rw [available_advance, available_advance, available_advance, hsplit, List.foldl_append]
  have hrunning : ((l.advance t).advance u).running = (l.advance u).running :=
    (congrArg Prod.snd hsplit).symm
  have hreached : ((l.advance t).advance u).advancedTo = (l.advance u).advancedTo :=
    Binary64.maxNum_maxNum_of_le h.1 h.2 htu
  calc (l.advance t).advance u
      = ⟨l.name, l.capacity, ((l.advance t).advance u).available, ((l.advance t).advance u).running,
          ((l.advance t).advance u).advancedTo⟩ := rfl
    _ = ⟨l.name, l.capacity, (l.advance u).available, (l.advance u).running,
          (l.advance u).advancedTo⟩ := by rw [havailable, hrunning, hreached]
    _ = l.advance u := rfl

/-- A ledger none of whose pods has finished, and that has reached the instant, is there already. -/
theorem advance_eq_self (hpods : ∀ p ∈ l.pods, ¬ p.finish ≤ t)
    (hreached : l.advancedTo.maxNum t = l.advancedTo) : l.advance t = l := by
  have hnone : l.completedBy t = ([], l.running) :=
    Heap.popWhile_eq_self fun p hp => decide_eq_false (hpods p hp)
  rw [advance, hnone]
  simp only [hreached, List.foldl_nil]

/-- An operation comes to the same on two ledgers that are the same once they are advanced to its
instant. -/
theorem Operation.after_congr {l' : Ledger} (op : Operation)
    (h : l.advance op.instant = l'.advance op.instant) :
    op.started? l = op.started? l' ∧ op.after l = op.after l' := by
  cases op with
  | release | check | ask => exact ⟨rfl, h⟩
  | assign id duration request t =>
    simp only [instant] at h
    simp only [started?, after, Ledger.assign, h, and_self]

/-! ### Refusals -/

/-- What a ledger is after it refused a request at a start. -/
structure Refused (l r : Ledger) (request : Resources) (start : Seconds) (refusal : Refusal) : Prop where
  /-- The reason is what is short on the ledger afterwards. -/
  reason : r.refusal? request = some refusal
  /-- The pods that have finished by the start are gone. -/
  pods : r.pods.Perm (l.pods.filter fun p => !decide (p.finish ≤ start))
  /-- They have given back what they held. -/
  available : ∃ finished : List RunningPod,
    finished.Perm (l.pods.filter fun p => decide (p.finish ≤ start)) ∧
      r.available = finished.foldl (fun a p => a + p.request) l.available
  /-- The ledger has reached the start. -/
  advancedTo : r.advancedTo = l.advancedTo.maxNum start
  /-- Nothing has changed exactly if no pod has finished by the start and the ledger had reached it. -/
  unchanged_iff : r.available = l.available ∧ r.pods.Perm l.pods ∧ r.advancedTo = l.advancedTo ↔
    (∀ p ∈ l.pods, ¬ p.finish ≤ start) ∧ ¬ l.advancedTo < start
  /-- What is done at the start or later comes to the same as without the assignment. -/
  later : ∀ op ops, start ≤ Operation.instant op →
    op.started? r = op.started? l ∧ r.replay (op :: ops) = l.replay (op :: ops)

/-- A ledger that was advanced to a start and refuses a request there. -/
theorem refused_advance (hsorted : l.Sorted) (hzero : l.ReachedZero) {request : Resources}
    {start : Seconds} {refusal : Refusal} (h : (l.advance start).refusal? request = some refusal) :
    Refused l (l.advance start) request start refusal := by
  have hreached := Binary64.maxNum_eq_left_iff (y := start) hzero.1 hzero.2
  refine ⟨h, hsorted.pods_advance_perm start, ⟨_, hsorted.completedBy_perm_filter start, rfl⟩, rfl,
    ⟨?_, ?_⟩, ?_⟩
  · rintro ⟨-, hpods, hsame⟩
    refine ⟨?_, hreached.1 hsame⟩
    intro p hp
    exact hsorted.not_finish_le (hpods.mem_iff.2 hp)
  · rintro ⟨hpods, hlt⟩
    rw [advance_eq_self hpods (hreached.2 hlt)]
    exact ⟨rfl, .refl _, rfl⟩
  · intro op ops hstart
    obtain ⟨hstarted, hafter⟩ := op.after_congr (advance_advance hzero hstart)
    refine ⟨hstarted, ?_⟩
    simp only [replay, List.foldl_cons, hafter]

/-- Whatever operations were made on an idle node, an assignment that is refused leaves the ledger unchanged
exactly if no pod has finished by the start and the ledger had reached it. In any case it leaves it as the
release of the finished pods at the start does. -/
theorem assign_refused (name : String) (capacity : Resources) (ops : List Operation) {id : Nat}
    {duration : Seconds} {request : Resources} {start : Seconds} {refusal : Refusal}
    (h : (((idle name capacity).replay ops).assign id duration request start).2 = .error refusal) :
    Refused ((idle name capacity).replay ops)
      (((idle name capacity).replay ops).assign id duration request start).1 request start refusal := by
  have hassigns : ∀ op ∈ ops, op.Assigns fun _ => True := fun op _ => op.assigns_true
  have hsorted := (invariant_sorted fun _ => True).replay hassigns (sorted_idle name capacity)
  have hzero := (invariant_reachedZero fun _ => True).replay hassigns (reachedZero_idle name capacity)
  rw [assign] at h ⊢
  cases hrefusal : (((idle name capacity).replay ops).advance start).refusal? request with
  | none =>
    rw [hrefusal] at h
    cases h
  | some reason =>
    rw [hrefusal] at h
    cases h
    exact refused_advance hsorted hzero hrefusal

/-- A node of two cores, one of which is in use until 10. -/
def halfBusy : Ledger := (idle "a" (.ofCpu 2)).replay [.assign 1 10 (.ofCpu 1) 0]

/-- A pod that asks for both cores at 5 is refused, and the ledger is advanced to that instant. -/
theorem assign_refused_halfBusy :
    Refused halfBusy (halfBusy.assign 2 10 (.ofCpu 2) 5).1 (.ofCpu 2) 5 (.cpu 2 1) := by
  have hrefused : (halfBusy.assign 2 10 (.ofCpu 2) 5).2 = .error (.cpu 2 1) := by decide +kernel
  exact assign_refused "a" (.ofCpu 2) [.assign 1 10 (.ofCpu 1) 0] hrefused

/-- A refusal may change the ledger: the pod that asks for three cores at 10 does not fit, but the one that
ran until then is gone afterwards. -/
theorem exists_changed_of_refused : (halfBusy.assign 2 10 (.ofCpu 3) 10).2 = .error (.cpu 3 2) ∧
    (halfBusy.assign 2 10 (.ofCpu 3) 10).1.available ≠ halfBusy.available ∧
    ¬ (halfBusy.assign 2 10 (.ofCpu 3) 10).1.pods.Perm halfBusy.pods ∧
    (halfBusy.assign 2 10 (.ofCpu 3) 10).1.advancedTo ≠ halfBusy.advancedTo := by
  decide +kernel

end Ledger

end PodPlacement
