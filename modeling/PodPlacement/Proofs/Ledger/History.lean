import PodPlacement.Proofs.Ledger.Regular
import PodPlacement.Proofs.Ledger.Solvent

/-! # Ledgers and their history

A ledger is used by releasing pods, by asking whether a request is admitted, and by assigning pods, at
instants that need not be in order. It keeps no record of what it was asked. Still its state can be told
from the operations made on it since the node was idle: a pod runs exactly if it was accepted and no later
operation was made at its finish or after it.

* `Operation.after_eq` — an operation advances the ledger, and may start one pod that is admitted then.
* `pods_replay_perm` — the running pods, after operations on a sorted ledger.
* `Invariant.replay` — what advancing and starting preserve, every sequence of operations preserves.
* `Reflects`, `replay_idle_reflects` — the whole state of a ledger in terms of its history. -/

namespace PodPlacement

/-- A duration that is not negative, counted from a finite instant, ends at a number. -/
theorem Binary64.isNaN_add_of_nonneg {x y : Binary64} (hx : x.isFinite = true) (hy : 0 ≤ y) :
    (x + y).isNaN = false := by
  by_cases hfin : y.isFinite = true
  · exact isNaN_add_of_isFinite (isNaN_of_isFinite hx) hfin
  · rw [eq_infinity hy (by simpa using hfin), infinity, add_signedInfinity hx]
    rfl

namespace Ledger

/-! ### Operations -/

/-- An operation on a ledger, with the instant it is made at. -/
inductive Operation where
  /-- The pods that have finished are released. -/
  | release (instant : Seconds)
  /-- The ledger is asked why it would refuse a request, if it would. -/
  | check (request : Resources) (instant : Seconds)
  /-- The ledger is asked whether it admits a request. -/
  | ask (request : Resources) (instant : Seconds)
  /-- A pod is assigned; it may be refused. -/
  | assign (id : Nat) (duration : Seconds) (request : Resources) (instant : Seconds)

namespace Operation

/-- The instant an operation is made at. -/
def instant : Operation → Seconds
  | release t | check _ t | ask _ t | assign _ _ _ t => t

/-- The ledger after an operation. To answer a question, it is advanced. -/
def after (l : Ledger) : Operation → Ledger
  | release t | check _ t | ask _ t => l.advance t
  | assign id duration request t => (l.assign id duration request t).1

/-- The pod an operation starts: an assignment that is accepted starts one. -/
def started? (l : Ledger) : Operation → Option RunningPod
  | release _ | check _ _ | ask _ _ => none
  | assign id duration request t =>
    match (l.assign id duration request t).2 with
    | .ok finish => some ⟨finish, id, request⟩
    | .error _ => none

/-- A request that is assigned has a property. -/
def Assigns (K : Resources → Prop) : Operation → Prop
  | release _ | check _ _ | ask _ _ => True
  | assign _ _ request _ => K request

/-- Of what is assigned nothing need be known. -/
theorem assigns_true (op : Operation) : op.Assigns fun _ => True := by
  cases op <;> trivial

/-- An operation is made at a finite instant, and a pod that is assigned asks for an amount of CPU and for
a time that are not negative. -/
def Proper (op : Operation) : Prop :=
  op.instant.isFinite = true ∧ op.Assigns (fun request => 0 ≤ request.cpu) ∧
    match op with
    | release _ | check _ _ | ask _ _ => True
    | assign _ duration _ _ => 0 ≤ duration

instance : DecidablePred Proper
  | release t | check _ t | ask _ t => inferInstanceAs (Decidable (t.isFinite = true ∧ True ∧ True))
  | assign _ duration request t =>
    inferInstanceAs (Decidable (t.isFinite = true ∧ 0 ≤ request.cpu ∧ 0 ≤ duration))

/-- An operation advances the ledger to its instant. That is all, or it starts a pod there that is admitted
then. -/
theorem after_eq (op : Operation) (l : Ledger) :
    (op.started? l = none ∧ op.after l = l.advance op.instant) ∨
      ∃ id duration request t, op = assign id duration request t ∧
        (l.advance t).refusal? request = none ∧ op.started? l = some ⟨t + duration, id, request⟩ ∧
        op.after l = (l.advance t).start ⟨t + duration, id, request⟩ := by
  cases op with
  | release | check | ask => exact .inl ⟨rfl, rfl⟩
  | assign id duration request t =>
    simp only [started?, after, Ledger.assign, instant]
    cases hrefusal : (l.advance t).refusal? request with
    | some refusal => exact .inl ⟨rfl, rfl⟩
    | none => exact .inr ⟨id, duration, request, t, rfl, hrefusal, rfl, rfl⟩

end Operation

/-- The ledger after some operations in turn. -/
def replay (l : Ledger) (ops : List Operation) : Ledger := ops.foldl Operation.after l

/-- The pods that some operations start, in turn, and that finish after the instant of every later
operation. -/
def outlasting (l : Ledger) : List Operation → List RunningPod
  | [] => []
  | op :: ops =>
    (op.started? l).toList.filter (fun p => ops.all fun later => decide (later.instant < p.finish)) ++
      outlasting (op.after l) ops

/-! ### Preserved properties -/

/-- What advancing and starting admitted pods preserve, operations preserve. -/
theorem Invariant.replay {K : Resources → Prop} {Q : Ledger → Prop} (h : Invariant K fun _ => Q)
    {ops : List Operation} (hops : ∀ op ∈ ops, op.Assigns K) {l : Ledger} (hl : Q l) :
    Q (l.replay ops) := by
  induction ops generalizing l with
  | nil => exact hl
  | cons op ops ih =>
    obtain ⟨hop, hops⟩ := List.forall_mem_cons.1 hops
    apply ih hops
    rcases op.after_eq l with ⟨-, hafter⟩ | ⟨id, duration, request, t, rfl, hfit, -, hafter⟩
    · rw [hafter]
      exact @Invariant.advance K _ h 0 l op.instant hl
    · rw [hafter]
      exact @Invariant.start K _ h 0 _ _ hop (@Invariant.advance K _ h 0 l t hl) hfit

/-- Ledgers stay solvent. -/
theorem invariant_solvent : Invariant (fun request => 0 ≤ request.cpu) fun _ l => l.Solvent where
  advance t h := h.advance t
  start hrequest h _ := h.start hrequest

/-- Ledgers stay sorted. -/
theorem invariant_sorted (K : Resources → Prop) : Invariant K fun _ l => l.Sorted where
  advance t h := h.advance t
  start _ h _ := h.start _

/-- Ledgers keep their capacity. -/
theorem invariant_capacity (K : Resources → Prop) (capacity : Resources) :
    Invariant K fun _ l => l.capacity = capacity where
  advance _ h := h
  start _ h _ := h

/-! ### Running pods -/

/-- The pods on the ledger finish at numbers. -/
def FinishesAtNumbers (l : Ledger) : Prop := ∀ p ∈ l.pods, p.finish.isNaN = false

variable {l : Ledger} {op : Operation} {ops : List Operation}

/-- A pod that a proper operation starts finishes at a number. -/
theorem Operation.Proper.finish_isNaN (hop : op.Proper) {p : RunningPod} (hp : op.started? l = some p) :
    p.finish.isNaN = false := by
  rcases op.after_eq l with ⟨hnone, -⟩ | ⟨id, duration, request, t, rfl, -, hsome, -⟩
  · rw [hp] at hnone
    cases hnone
  · rw [hp] at hsome
    cases hsome
    exact Binary64.isNaN_add_of_nonneg hop.1 hop.2.2

/-- After an operation, the pods run that it starts, and those of the others that finish later. -/
theorem Sorted.pods_after_perm (h : l.Sorted) (hfinish : l.FinishesAtNumbers)
    (hop : op.instant.isNaN = false) : (op.after l).pods.Perm ((op.started? l).toList ++
      l.pods.filter fun p => decide (op.instant < p.finish)) := by
  have hstay : (l.advance op.instant).pods.Perm (l.pods.filter fun p => decide (op.instant < p.finish)) := by
    refine (h.pods_advance_perm op.instant).trans (List.Perm.of_eq (List.filter_congr ?_))
    intro p hp
    rw [← decide_not, decide_eq_decide]
    exact Binary64.not_le_iff (hfinish p hp) hop
  rcases op.after_eq l with ⟨hnone, hafter⟩ | ⟨id, duration, request, t, rfl, -, hsome, hafter⟩
  · rw [hnone, hafter]
    exact hstay
  · rw [hsome, hafter]
    exact (pods_start_perm _ _).trans (hstay.cons _)

/-- An operation at a finite instant keeps finishes numbers. -/
theorem FinishesAtNumbers.after (h : l.FinishesAtNumbers) (hop : op.Proper) :
    (op.after l).FinishesAtNumbers := by
  rcases op.after_eq l with ⟨-, hafter⟩ | ⟨id, duration, request, t, rfl, -, hsome, hafter⟩
  · rw [hafter]
    exact fun p hp => h p (mem_pods_of_mem_advance hp)
  · rw [hafter]
    intro p hp
    rcases mem_pods_start.1 hp with rfl | hp
    · exact hop.finish_isNaN hsome
    · exact h p (mem_pods_of_mem_advance hp)

/-- Operations keep finishes numbers. -/
theorem FinishesAtNumbers.replay (h : l.FinishesAtNumbers) (hops : ∀ op ∈ ops, op.Proper) :
    (l.replay ops).FinishesAtNumbers := by
  induction ops generalizing l with
  | nil => exact h
  | cons op ops ih =>
    obtain ⟨hop, hops⟩ := List.forall_mem_cons.1 hops
    exact ih (h.after hop) hops

/-- After some operations, the pods run that were started and outlast the later operations, and those of
the others that outlast all operations. -/
theorem Sorted.pods_replay_perm (h : l.Sorted) (hfinish : l.FinishesAtNumbers)
    (hops : ∀ op ∈ ops, op.Proper) : (l.replay ops).pods.Perm (l.outlasting ops ++
      l.pods.filter fun p => ops.all fun op => decide (op.instant < p.finish)) := by
  induction ops generalizing l with
  | nil => exact List.Perm.of_eq (List.filter_eq_self.2 fun _ _ => rfl).symm
  | cons op ops ih =>
    obtain ⟨hop, hops⟩ := List.forall_mem_cons.1 hops
    have hsorted : (l.replay [op]).Sorted :=
      (invariant_sorted fun _ => True).replay (fun op _ => op.assigns_true) h
    have hrest := ih hsorted (hfinish.after hop) hops
    -- The pods that run after the first operation are looked through for those that outlast the others.
    have hfirst := (h.pods_after_perm hfinish (Binary64.isNaN_of_isFinite hop.1)).filter fun p =>
      ops.all fun later => decide (later.instant < p.finish)
    rw [List.filter_append, List.filter_filter] at hfirst
    refine hrest.trans ((hfirst.append_left _).trans ?_)
    rw [outlasting, List.append_assoc]
    simp only [List.all_cons, Bool.and_comm]
    exact (List.perm_append_comm_assoc _ _ _)

/-! ### The instant a ledger has reached -/

/-- The instant a ledger has reached is the latest of the one it had reached and those of the
operations. -/
theorem advancedTo_replay (hl : l.advancedTo.isNaN = false)
    (hops : ∀ op ∈ ops, op.instant.isNaN = false) :
    (l.replay ops).advancedTo ∈ l.advancedTo :: ops.map Operation.instant ∧
      ∀ t ∈ l.advancedTo :: ops.map Operation.instant, t ≤ (l.replay ops).advancedTo := by
  induction ops generalizing l with
  | nil => exact ⟨List.mem_cons_self, List.forall_mem_singleton.2 (Binary64.le_refl hl)⟩
  | cons op ops ih =>
    obtain ⟨hop, hops⟩ := List.forall_mem_cons.1 hops
    have hafter : (op.after l).advancedTo = l.advancedTo.maxNum op.instant := by
      rcases op.after_eq l with ⟨-, hafter⟩ | ⟨id, duration, request, t, rfl, -, -, hafter⟩ <;>
        rw [hafter] <;> rfl
    have hrest := ih (l := op.after l) (by rw [hafter]; exact Binary64.isNaN_maxNum_left hl _) hops
    rw [hafter] at hrest
    obtain ⟨hmem, hle⟩ := hrest
    obtain ⟨hfirst, hle⟩ := List.forall_mem_cons.1 hle
    constructor
    · rcases List.mem_cons.1 hmem with hmem | hmem
      · show (replay (op.after l) ops).advancedTo ∈ _
        rw [hmem]
        rcases Binary64.maxNum_eq_or l.advancedTo op.instant with h | h <;> rw [h] <;> simp
      · exact List.mem_cons_of_mem _ (List.mem_cons_of_mem _ hmem)
    · refine List.forall_mem_cons.2 ⟨?_, List.forall_mem_cons.2 ⟨?_, hle⟩⟩
      · exact Binary64.le_trans (Binary64.le_maxNum_left hl _) hfirst
      · exact Binary64.le_trans (Binary64.le_maxNum_right _ hop) hfirst

/-! ### The state of a ledger -/

/-- The state of a ledger is what can be told from the capacity of the node, the pods that outlast the
operations made on it, and the instants of these operations. -/
structure Reflects (capacity : Resources) (pods : List RunningPod) (instants : List Seconds)
    (l : Ledger) : Prop where
  /-- These pods run, and no others. -/
  pods : l.pods.Perm pods
  /-- The ledger has reached zero or one of the instants. -/
  reached_mem : l.advancedTo ∈ 0 :: instants
  /-- It has reached all of them. -/
  le_reached : ∀ t ∈ 0 :: instants, t ≤ l.advancedTo
  /-- A ledger without pods is free from zero on. -/
  free_of_empty : l.pods = [] → l.earliestFree = 0
  /-- Any other ledger is free when a pod finishes. -/
  free_mem : l.pods ≠ [] → l.earliestFree ∈ l.pods.map RunningPod.finish
  /-- No pod finishes before that. -/
  free_le : ∀ p ∈ l.pods, l.earliestFree ≤ p.finish
  /-- Each GPU is available or held by a pod. -/
  gpu : l.available.gpu.val + (l.pods.map fun p => p.request.gpu.val).sum = capacity.gpu.val
  /-- All memory is available or held by a pod. -/
  memory : l.available.memory.val + (l.pods.map fun p => p.request.memory.val).sum = capacity.memory.val
  /-- The CPU that is available is an amount, as the capacity is. -/
  cpu : 0 ≤ capacity.cpu → 0 ≤ l.available.cpu

/-- A ledger without pods is free from zero on. -/
theorem earliestFree_eq_zero (h : l.pods = []) : l.earliestFree = 0 := by
  rcases l.earliestFree_eq_or with ⟨-, hfree⟩ | ⟨p, hp, -⟩
  · exact hfree
  · rw [h] at hp
    cases hp

/-- A ledger with pods is free when one of them finishes. -/
theorem earliestFree_mem (h : l.pods ≠ []) : l.earliestFree ∈ l.pods.map RunningPod.finish := by
  rcases l.earliestFree_eq_or with ⟨hempty, -⟩ | ⟨p, hp, hfree⟩
  · exact absurd hempty h
  · rw [hfree]
    exact List.mem_map_of_mem hp

/-- A ledger whose pods finish at numbers is not free after one of them finishes. -/
theorem Sorted.earliestFree_le (h : l.Sorted) (hfinish : l.FinishesAtNumbers) :
    ∀ p ∈ l.pods, l.earliestFree ≤ p.finish := by
  intro p hp
  exact Binary64.le_of_rank_le (h.earliestFree_rank_le hp) (Binary64.le_refl (hfinish p hp))

/-- Whatever operations are made on an idle node, in whatever order their instants come, the state of the
ledger is what can be told from them. A capacity that is an amount of CPU, as `Resources.ofAmounts` makes it,
leaves an amount available. If all amounts are whole cores, CPU is balanced as well. -/
theorem replay_idle_reflects (name : String) (capacity : Resources) {ops : List Operation}
    (hops : ∀ op ∈ ops, op.Proper) :
    ((idle name capacity).replay ops).Reflects capacity ((idle name capacity).outlasting ops)
        (ops.map Operation.instant) ∧
      (capacity.WholeCores → (∀ op ∈ ops, op.Assigns Resources.WholeCores) →
        ((idle name capacity).replay ops).available.cpu.toUnits +
          (((idle name capacity).replay ops).pods.map fun p => p.request.cpu.toUnits).sum =
            capacity.cpu.toUnits) := by
  have hempty : (idle name capacity).FinishesAtNumbers := fun p hp => absurd hp List.not_mem_nil
  -- What is true of all requests is true of the assigned ones.
  have hassigns {K : Resources → Prop} (hK : ∀ r, K r) : ∀ op ∈ ops, op.Assigns K := by
    rintro (_ | _ | _ | _) _
    · trivial
    · trivial
    · trivial
    · exact hK _
  have hcapacity := (invariant_capacity (fun _ => True) capacity).replay (hassigns fun _ => trivial)
    (l := idle name capacity) rfl
  have hsorted := (invariant_sorted fun _ => True).replay (hassigns fun _ => trivial)
    (sorted_idle name capacity)
  have hgpu : Balanced .gpu ((idle name capacity).replay ops) :=
    (invariant_balanced .gpu).replay (hassigns fun _ => trivial) (.idle name trivial)
  have hmemory : Balanced .memory ((idle name capacity).replay ops) :=
    (invariant_balanced .memory).replay (hassigns fun _ => trivial) (.idle name trivial)
  obtain ⟨hmem, hle⟩ := advancedTo_replay (l := idle name capacity) rfl
    fun op hop => Binary64.isNaN_of_isFinite (hops op hop).1
  refine ⟨⟨?_, hmem, hle, earliestFree_eq_zero, earliestFree_mem,
    hsorted.earliestFree_le (hempty.replay hops), ?_, ?_, ?_⟩, ?_⟩
  · have hperm := (sorted_idle name capacity).pods_replay_perm hempty hops
    rwa [pods_idle, List.filter_nil, List.append_nil] at hperm
  · have htotal := hgpu.total
    rwa [hcapacity] at htotal
  · have htotal := hmemory.total
    rwa [hcapacity] at htotal
  · intro hcpu
    exact (invariant_solvent.replay (fun op hop => (hops op hop).2.1) (.idle name hcpu)).available
  · intro hwhole hassigned
    have hcpu := (invariant_balanced .cpu).replay hassigned (.idle name hwhole)
    have hheld : ∀ r ∈ ((idle name capacity).replay ops).requests, r.WholeCores := by
      intro r hr
      obtain ⟨p, hp, rfl⟩ := List.mem_map.1 hr
      exact hcpu.request p hp
    replace hheld := Meter.sum_toUnits hheld
    rw [requests, List.map_map, List.map_map] at hheld
    have htotal := hcpu.total
    rw [hcapacity] at htotal
    rw [Meter.toUnits_eq hcpu.available, Meter.toUnits_eq hwhole, ← htotal, Int.natCast_add]
    exact congrArg _ hheld

/-- Operations on a node of four cores: an assignment that is refused because two pods hold the cores,
an earlier instant than before, and a question at which one of the pods has finished. -/
def backAndForth : List Operation :=
  [.assign 1 10 (.ofCpu 3) 5, .assign 2 40 (.ofCpu 1) 0, .assign 3 1 (.ofCpu 2) 14, .release 2,
    .ask (.ofCpu 2) 15]

/-- The state of the node after these operations; CPU is balanced, since all amounts are whole cores. -/
theorem replay_idle_reflects_backAndForth :
    ((idle "a" (.ofCpu 4)).replay backAndForth).Reflects (.ofCpu 4)
        ((idle "a" (.ofCpu 4)).outlasting backAndForth) (backAndForth.map Operation.instant) ∧
      ((idle "a" (.ofCpu 4)).replay backAndForth).available.cpu.toUnits +
        (((idle "a" (.ofCpu 4)).replay backAndForth).pods.map fun p => p.request.cpu.toUnits).sum =
          (Resources.ofCpu 4).cpu.toUnits := by
  have hproper : ∀ op ∈ backAndForth, op.Proper := by decide +kernel
  obtain ⟨hreflects, hcpu⟩ := replay_idle_reflects "a" (.ofCpu 4) hproper
  have hwhole (k : Nat) (hk : k < 2 ^ 52) : (Resources.ofCpu (.ofNat k)).WholeCores :=
    Resources.wholeCores_ofCpu hk
  refine ⟨hreflects, hcpu (hwhole 4 (by decide)) ?_⟩
  simp only [backAndForth, List.forall_mem_cons]
  exact ⟨hwhole 3 (by decide), hwhole 1 (by decide), hwhole 2 (by decide), trivial, trivial,
    fun _ h => absurd h List.not_mem_nil⟩

-- The pod that finishes at 15 is gone, the refused one never came, and the other one runs until 40.
example : (idle "a" (.ofCpu 4)).outlasting backAndForth = [⟨40, 2, .ofCpu 1⟩] := by decide +kernel

/-- A node keeps the capacity it is given, also one that `Resources.ofAmounts` would not make: if its CPU is
negative or no number, so is what is available. -/
theorem available_idle_of_no_amount :
    (∀ op ∈ [Operation.release 5], op.Proper) ∧
      ((idle "a" ⟨-1, 0, 0⟩).replay [.release 5]).available.cpu < 0 ∧
      ((idle "a" ⟨.nan, 0, 0⟩).replay [.release 5]).available.cpu.isNaN = true := by
  decide +kernel

end Ledger

end PodPlacement
