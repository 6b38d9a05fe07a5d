import PodPlacement.Proofs.Ledger.Refused

/-! # Admission

A ledger decides on a request by comparing it with what is available at an instant, one resource after the
other, while `fitsWithin` compares all amounts at once. Both give the same answer on every ledger in use: no
CPU amount on it is NaN, and of two numbers one is at most the other or larger. The capacity it starts from is
an amount, as that of all resources made by `ofAmounts` is (`Resources.nonneg_ofAmounts`).

Admission is monotone. Up to a later instant more pods finish, and each of them gives something back; however
the sums are rounded or cut at a limit, none of them lowers what is available.

* `Judges`, `judges_shortage?` — the answer to a request, given what is available.
* `Solvent.available_within_advance`, `Solvent.available_within` — the later, the more is available.
* `Solvent.canAdmit_later` — what is admitted is admitted later, and so is less.
* `Answers`, `replay_idle_answers` — how a ledger in use answers a request. -/

namespace PodPlacement

namespace Resources

/-! ### The answer to a request -/

/-- How a request is answered when a budget is available. Nothing is short exactly if the request fits. Otherwise
the first resource that is short is named, with the amount requested and the amount available. -/
structure Judges (budget request : Resources) (refusal? : Option Refusal) : Prop where
  /-- There is no refusal exactly if the request fits. -/
  admitted : refusal? = none ↔ request.fitsWithin budget = true
  /-- CPU is looked at first, up to the tolerance. -/
  cpu : ∀ required available, refusal? = some (.cpu required available) ↔
    ¬ request.cpu ≤ budget.cpu + cpuTolerance ∧ required = request.cpu ∧ available = budget.cpu
  /-- GPUs are looked at if the CPU suffices. -/
  gpu : ∀ required available, refusal? = some (.gpu required available) ↔
    request.cpu ≤ budget.cpu + cpuTolerance ∧ ¬ request.gpu ≤ budget.gpu ∧
      required = request.gpu ∧ available = budget.gpu
  /-- Memory is looked at if the CPU and the GPUs suffice. -/
  memory : ∀ required available, refusal? = some (.memory required available) ↔
    request.cpu ≤ budget.cpu + cpuTolerance ∧ request.gpu ≤ budget.gpu ∧
      ¬ request.memory ≤ budget.memory ∧ required = request.memory ∧ available = budget.memory

/-- If the amounts are numbers, CPU is short exactly if the request does not fit. -/
theorem add_tolerance_lt_iff {budget request : Resources} (hbudget : 0 ≤ budget.cpu)
    (hrequest : 0 ≤ request.cpu) :
    budget.cpu + cpuTolerance < request.cpu ↔ ¬ request.cpu ≤ budget.cpu + cpuTolerance :=
  (Binary64.not_le_iff (Binary64.isNaN_of_le_right hrequest)
    (Binary64.isNaN_of_le_right (add_tolerance_le hbudget))).symm

/-- The first shortage is the answer to a request. -/
theorem judges_shortage? {budget request : Resources} (hbudget : 0 ≤ budget.cpu)
    (hrequest : 0 ≤ request.cpu) : Judges budget request (request.shortage? budget) := by
  have hgpu : budget.gpu < request.gpu ↔ ¬ request.gpu ≤ budget.gpu := Nat.not_le.symm
  have hmemory : budget.memory < request.memory ↔ ¬ request.memory ≤ budget.memory := Nat.not_le.symm
  have hfits : request.fitsWithin budget = true ↔ request.cpu ≤ budget.cpu + cpuTolerance ∧
      request.gpu ≤ budget.gpu ∧ request.memory ≤ budget.memory := fitsWithin_iff
  -- One case for each resource that may be the first that is short, and one if none is.
  rw [shortage?]
  simp only [add_tolerance_lt_iff hbudget hrequest, hgpu, hmemory]
  by_cases hcpu : request.cpu ≤ budget.cpu + cpuTolerance
  · by_cases hgpu : request.gpu ≤ budget.gpu
    · by_cases hmemory : request.memory ≤ budget.memory
      · constructor <;> simp [hfits, hcpu, hgpu, hmemory]
      · constructor <;> simp [hfits, hcpu, hgpu, hmemory, eq_comm]
    · constructor <;> simp [hfits, hcpu, hgpu, eq_comm]
  · constructor <;> simp [hfits, hcpu, eq_comm]

end Resources

namespace Ledger

variable {l : Ledger} {t u : Seconds} {r r' : Resources}

/-! ### Availability over time -/

/-- Advancing leaves no less available. -/
theorem Solvent.available_within_advance (h : l.Solvent) (t : Seconds) :
    l.available.Within (l.advance t).available := by
  rw [available_advance, ← List.foldl_map (f := RunningPod.request) (g := fun (a r : Resources) => a + r)]
  refine Resources.foldl_add_within (List.nil_sublist _) ?_ h.available (Resources.within_self h.available)
  intro r hr
  obtain ⟨p, hp, rfl⟩ := List.mem_map.1 hr
  exact h.requests p ((completedBy_perm l t).subset (List.mem_append_left _ hp))

/-- At a later instant no less is available. -/
theorem Solvent.available_within (h : l.Solvent) (hzero : l.ReachedZero) (htu : t ≤ u) :
    (l.advance t).available.Within (l.advance u).available := by
  rw [← advance_advance hzero htu]
  exact (h.advance t).available_within_advance u

/-- What is admitted at an instant is admitted later, and so is less. -/
theorem Solvent.canAdmit_later (h : l.Solvent) (hzero : l.ReachedZero) (htu : t ≤ u) (hr : r.Within r')
    (hadmits : l.canAdmit r' t = true) : l.canAdmit r u = true := by
  rw [canAdmit_iff] at hadmits ⊢
  exact Resources.shortage?_eq_none_of_within hr (h.available_within hzero htu) hadmits

/-! ### The answers of a ledger -/

/-- How a ledger answers a request at an instant. -/
structure Answers (l : Ledger) (request : Resources) (t : Seconds) : Prop where
  /-- It compares the request with what is available once the pods that have finished are released. -/
  judges : Resources.Judges (l.advance t).available request ((l.advance t).refusal? request)
  /-- It admits the request exactly if it has no reason to refuse it. -/
  canAdmit : l.canAdmit request t = true ↔ (l.advance t).refusal? request = none
  /-- If it admits the request, it admits what is within the request then and later, and so does the ledger that
  the answer leaves behind. -/
  later : l.canAdmit request t = true → ∀ smaller later, smaller.Within request → t ≤ later →
    l.canAdmit smaller later = true ∧ (l.advance t).canAdmit smaller later = true

/-- Whatever operations were made on a node whose capacity is an amount, as every way to make resources gives
it, its ledger admits a request exactly if that fits within what is available, names the first resource that is
short if it does not, and admits less, and that later, if it does. -/
theorem replay_idle_answers (name : String) {capacity : Resources} (hcapacity : 0 ≤ capacity.cpu)
    {ops : List Operation} (hops : ∀ op ∈ ops, op.Assigns fun request => 0 ≤ request.cpu)
    {request : Resources} (hrequest : 0 ≤ request.cpu) (t : Seconds) :
    ((idle name capacity).replay ops).Answers request t := by
  have hsolvent := invariant_solvent.replay hops (.idle name hcapacity)
  have hzero := (invariant_reachedZero _).replay hops (reachedZero_idle name capacity)
  refine ⟨Resources.judges_shortage? (hsolvent.advance t).available hrequest, canAdmit_iff, ?_⟩
  intro hadmits smaller later hsmaller hlater
  have hsame := hsolvent.canAdmit_later hzero hlater hsmaller hadmits
  refine ⟨hsame, ?_⟩
  rwa [canAdmit, advance_advance hzero hlater, ← canAdmit]

/-- Operations on a node of 0.3 cores: 0.1 cores are taken until 10 and 0.2 until 20, the latter within the
tolerance only, and 0.1 more are refused at 5. -/
def sharedCore : List Operation :=
  [.assign 1 10 (.ofCpu 0.1) 0, .assign 2 20 (.ofCpu 0.2) 0, .assign 3 10 (.ofCpu 0.1) 5]

/-- At 10 there are 0.1 cores again, enough for a request of 0.1. So there is enough for 0.05 at 20, when sums
are rounded up to slightly more than the capacity. -/
theorem replay_idle_answers_sharedCore :
    ((idle "a" (.ofCpu 0.3)).replay sharedCore).Answers (.ofCpu 0.1) 10 ∧
      ((idle "a" (.ofCpu 0.3)).replay sharedCore).canAdmit (.ofCpu 0.05) 20 = true := by
  have hcapacity : 0 ≤ (Resources.ofCpu 0.3).cpu := Resources.nonneg_ofAmounts _ _ _
  have hrequest : 0 ≤ (Resources.ofCpu 0.1).cpu := Resources.nonneg_ofAmounts _ _ _
  have hlarger : 0 ≤ (Resources.ofCpu 0.2).cpu := Resources.nonneg_ofAmounts _ _ _
  have hops : ∀ op ∈ sharedCore, op.Assigns fun request => 0 ≤ request.cpu := by
    simp only [sharedCore, List.forall_mem_cons]
    exact ⟨hrequest, hlarger, hrequest, fun _ h => absurd h List.not_mem_nil⟩
  have hanswers := replay_idle_answers "a" hcapacity hops hrequest 10
  have hadmits : ((idle "a" (.ofCpu 0.3)).replay sharedCore).canAdmit (.ofCpu 0.1) 10 = true := by
    decide +kernel
  have hless : (Resources.ofCpu 0.05).Within (.ofCpu 0.1) :=
    ⟨by decide +kernel, Nat.le_refl _, Nat.le_refl _⟩
  exact ⟨hanswers, (hanswers.later hadmits _ _ hless (by decide +kernel)).1⟩

end Ledger

end PodPlacement
