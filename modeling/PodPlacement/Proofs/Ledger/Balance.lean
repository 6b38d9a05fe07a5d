import Mathlib.Algebra.Order.BigOperators.Group.List
import Mathlib.Algebra.Order.Ring.Int
import PodPlacement.Proofs.Ledger.Operations
import PodPlacement.Proofs.Number.Exact

/-! # Ledgers balance

A `Meter` reads one resource of an amount as a natural number and says for which amounts the
arithmetic of resources is exact under this reading. There are three: GPUs and memory, exact on all
amounts, and CPU, exact on whole cores below `2 ^ 52`. A ledger is `Balanced` under a meter if what is
available and what the running pods hold add up to the capacity.

* `Balanced.advance`, `Balanced.start`, `invariant_balanced` — a ledger stays balanced.
* `Balanced.held_le` — a balanced ledger never holds more than the capacity.
* `shortage?_eq_none_iff` — whole amounts fit exactly if they fit under each meter. -/

namespace PodPlacement

namespace Resources

/-- The CPU amount is a whole number of cores below `2 ^ 52`. -/
def WholeCores (r : Resources) : Prop := ∃ k < 2 ^ 52, r.cpu.IsCount k

/-- A natural number of cores is whole. -/
theorem wholeCores_ofCpu {k : Nat} (hk : k < 2 ^ 52) : (ofCpu (.ofNat k)).WholeCores := by
  have hcount : (Binary64.ofNat k).IsCount k := Binary64.isCount_ofNat (by omega)
  refine ⟨k, hk, ?_⟩
  show ((Binary64.ofNat k).maxNum 0).IsCount k
  rcases Binary64.maxNum_eq_or (.ofNat k) 0 with h | h
  · rw [h]
    exact hcount
  · have hle := Binary64.le_maxNum_left hcount.isNaN_eq_false 0
    rw [h] at hle ⊢
    have hzero : (0 : Binary64).IsCount 0 := Binary64.isCount_ofNat (Nat.zero_le _)
    rw [hcount.le_iff_le hzero] at hle
    rwa [Nat.le_zero.1 hle]

/-- An amount fits if it is within the budget in each resource, up to the tolerance in CPU. -/
theorem fitsWithin_iff {r budget : Resources} : r.fitsWithin budget = true ↔
    r.cpu ≤ budget.cpu + cpuTolerance ∧ r.gpu.val ≤ budget.gpu.val ∧
      r.memory.val ≤ budget.memory.val := by
  rw [fitsWithin]
  simp only [Bool.and_eq_true, decide_eq_true_eq, Capped.le_iff_val, and_assoc]

/-- Nothing is short exactly if no amount is. -/
theorem shortage?_eq_none {r a : Resources} : r.shortage? a = none ↔
    ¬ a.cpu + cpuTolerance < r.cpu ∧ r.gpu.val ≤ a.gpu.val ∧ r.memory.val ≤ a.memory.val := by
  rw [shortage?]
  by_cases hcpu : a.cpu + cpuTolerance < r.cpu
  · rw [if_pos hcpu]
    simp [hcpu]
  · rw [if_neg hcpu]
    by_cases hgpu : a.gpu < r.gpu
    · rw [if_pos hgpu]
      rw [Capped.lt_iff_val] at hgpu
      simp only [reduceCtorEq, false_iff, not_and]
      omega
    · rw [if_neg hgpu]
      rw [Capped.lt_iff_val] at hgpu
      by_cases hmem : a.memory < r.memory
      · rw [if_pos hmem]
        rw [Capped.lt_iff_val] at hmem
        simp only [reduceCtorEq, false_iff, not_and]
        omega
      · rw [if_neg hmem]
        rw [Capped.lt_iff_val] at hmem
        exact ⟨fun _ => ⟨hcpu, by omega, by omega⟩, fun _ => rfl⟩

end Resources

/-- A pod that asks for CPU and nothing else. -/
def Pod.ofCpu (id : Nat) (submit duration : Seconds) (cpu : Cores) : Pod :=
  ⟨id, "pod", "job", "task", id, submit, duration, .ofCpu cpu, .zero⟩

/-- A pod that asks for a natural number of cores and nothing else. -/
def Pod.ofCores (id : Nat) (submit duration : Seconds) (cores : Nat) : Pod :=
  ⟨id, "pod", "job", "task", id, submit, duration, .ofCpu (.ofNat cores), .zero⟩

/-! ### Meters -/

/-- A reading of one resource as a natural number under which the arithmetic of resources is exact. -/
structure Meter where
  /-- The reading of an amount. -/
  amount : Resources → Nat
  /-- The amounts on which the arithmetic is exact. -/
  Exact : Resources → Prop
  /-- A sum that stays within some exact amount is exact. -/
  amount_add : ∀ {a b c}, Exact a → Exact b → Exact c → amount a + amount b ≤ amount c →
    Exact (a + b) ∧ amount (a + b) = amount a + amount b
  /-- A difference that stays above zero is exact. -/
  amount_sub : ∀ {a b}, Exact a → Exact b → amount b ≤ amount a →
    Exact (a - b) ∧ amount (a - b) = amount a - amount b
  /-- An admitted request is within what is available. -/
  amount_le : ∀ {r a}, Exact r → Exact a → r.shortage? a = none → amount r ≤ amount a

namespace Meter

/-- The number of GPUs. -/
def gpu : Meter where
  amount r := r.gpu.val
  Exact _ := True
  amount_add {a b c} _ _ _ h :=
    ⟨trivial, by rw [Resources.gpu_add, Capped.val_add, Nat.min_eq_left (h.trans c.gpu.val_le)]⟩
  amount_sub _ _ _ := ⟨trivial, by rw [Resources.gpu_sub, Capped.val_sub]⟩
  amount_le _ _ h := (Resources.shortage?_eq_none.1 h).2.1

/-- The mebibytes of memory. -/
def memory : Meter where
  amount r := r.memory.val
  Exact _ := True
  amount_add {a b c} _ _ _ h :=
    ⟨trivial, by rw [Resources.memory_add, Capped.val_add, Nat.min_eq_left (h.trans c.memory.val_le)]⟩
  amount_sub _ _ _ := ⟨trivial, by rw [Resources.memory_sub, Capped.val_sub]⟩
  amount_le _ _ h := (Resources.shortage?_eq_none.1 h).2.2

/-- The reading of a whole number of cores in units. -/
theorem toNat_toUnits {x : Binary64} {k : Nat} (h : x.IsCount k) : x.toUnits.toNat = k * unitsPerOne := by
  rw [h.2, Int.toNat_natCast]

/-- The units of CPU. -/
def cpu : Meter where
  amount r := r.cpu.toUnits.toNat
  Exact := Resources.WholeCores
  amount_add := by
    rintro a b c ⟨i, hi, ha⟩ ⟨j, hj, hb⟩ ⟨k, hk, hc⟩ h
    rw [toNat_toUnits ha, toNat_toUnits hb, toNat_toUnits hc, ← Nat.add_mul] at h
    have hle : i + j ≤ k := Nat.le_of_mul_le_mul_right h Binary64.unitsPerOne_pos
    have hsum : (a + b).cpu.IsCount (i + j) := ha.add hb (by omega)
    refine ⟨⟨i + j, by omega, hsum⟩, ?_⟩
    rw [toNat_toUnits hsum, toNat_toUnits ha, toNat_toUnits hb, Nat.add_mul]
  amount_sub := by
    rintro a b ⟨i, hi, ha⟩ ⟨j, hj, hb⟩ h
    rw [toNat_toUnits ha, toNat_toUnits hb] at h
    have hle : j ≤ i := Nat.le_of_mul_le_mul_right h Binary64.unitsPerOne_pos
    have hdiff : (a - b).cpu.IsCount (i - j) := ha.sub hb hle (by omega)
    refine ⟨⟨i - j, by omega, hdiff⟩, ?_⟩
    rw [toNat_toUnits hdiff, toNat_toUnits ha, toNat_toUnits hb, Nat.sub_mul]
  amount_le := by
    rintro r a ⟨i, hi, hr⟩ ⟨j, hj, ha⟩ h
    have hfit := (Resources.shortage?_eq_none.1 h).1
    rw [ha.add_tolerance_lt_iff hr hj] at hfit
    rw [toNat_toUnits hr, toNat_toUnits ha]
    exact Nat.mul_le_mul_right _ (by omega)

end Meter

/-- Whole amounts fit exactly if they fit under each meter. -/
theorem Resources.shortage?_eq_none_iff {r a : Resources} (hr : r.WholeCores) (ha : a.WholeCores) :
    r.shortage? a = none ↔ Meter.cpu.amount r ≤ Meter.cpu.amount a ∧
      Meter.gpu.amount r ≤ Meter.gpu.amount a ∧ Meter.memory.amount r ≤ Meter.memory.amount a := by
  constructor
  · intro h
    exact ⟨Meter.cpu.amount_le hr ha h, Meter.gpu.amount_le trivial trivial h,
      Meter.memory.amount_le trivial trivial h⟩
  · rintro ⟨hcpu, hgpu, hmem⟩
    refine shortage?_eq_none.2 ⟨?_, hgpu, hmem⟩
    obtain ⟨i, hi, hr⟩ := hr
    obtain ⟨j, hj, ha⟩ := ha
    rw [ha.add_tolerance_lt_iff hr hj]
    simp only [Meter.cpu, Meter.toNat_toUnits hr, Meter.toNat_toUnits ha] at hcpu
    exact Nat.not_lt.2 (Nat.le_of_mul_le_mul_right hcpu Binary64.unitsPerOne_pos)

namespace Meter

variable (m : Meter)

/-- What some pods hold in all. -/
def held (ps : List RunningPod) : Nat := (ps.map fun p => m.amount p.request).sum

/-- No pods hold nothing. -/
@[simp] theorem held_nil : m.held [] = 0 := rfl

/-- The first pod holds its request. -/
@[simp] theorem held_cons (p : RunningPod) (ps : List RunningPod) :
    m.held (p :: ps) = m.amount p.request + m.held ps := rfl

/-- Two groups of pods hold the sum. -/
theorem held_append (ps qs : List RunningPod) : m.held (ps ++ qs) = m.held ps + m.held qs := by
  rw [held, List.map_append, List.sum_append_nat]
  rfl

/-- The order of the pods does not matter. -/
theorem held_perm {ps qs : List RunningPod} (h : ps.Perm qs) : m.held ps = m.held qs :=
  (h.map _).sum_nat

/-- Some of the amounts come to no more than all of them. -/
theorem sum_amount_le {rs rs' : List Resources} (h : rs.Subperm rs') :
    (rs.map m.amount).sum ≤ (rs'.map m.amount).sum := by
  obtain ⟨part, hperm, hsub⟩ := h
  rw [← (hperm.map m.amount).sum_nat]
  exact (hsub.map m.amount).sum_le_sum fun _ _ => Nat.zero_le _

/-- Adding some amounts in turn is exact as long as the sum stays within some exact amount. -/
theorem amount_foldl_add {limit : Resources} (hlimit : m.Exact limit) (rs : List Resources)
    {a : Resources} (ha : m.Exact a) (hrs : ∀ r ∈ rs, m.Exact r)
    (hle : m.amount a + (rs.map m.amount).sum ≤ m.amount limit) :
    m.Exact (rs.foldl (· + ·) a) ∧
      m.amount (rs.foldl (· + ·) a) = m.amount a + (rs.map m.amount).sum := by
  induction rs generalizing a with
  | nil => exact ⟨ha, rfl⟩
  | cons r rs ih =>
    rw [List.map_cons, List.sum_cons] at hle ⊢
    obtain ⟨hexact, hsum⟩ := m.amount_add ha (hrs r List.mem_cons_self) hlimit (by omega)
    obtain ⟨hexact', hsum'⟩ := ih hexact (fun q hq => hrs q (List.mem_cons_of_mem r hq))
      (by rw [hsum]; omega)
    exact ⟨hexact', by rw [List.foldl_cons, hsum', hsum]; omega⟩

end Meter

/-- The units of an amount of whole cores are a natural number. -/
theorem Meter.toUnits_eq {r : Resources} (h : r.WholeCores) : r.cpu.toUnits = (Meter.cpu.amount r : Nat) := by
  obtain ⟨k, -, hr⟩ := h
  show _ = ((r.cpu.toUnits.toNat : Nat) : Int)
  rw [Meter.toNat_toUnits hr, hr.2]

/-- Amounts of whole cores add up in units. -/
theorem Meter.sum_toUnits {rs : List Resources} (h : ∀ r ∈ rs, r.WholeCores) :
    (rs.map fun r => r.cpu.toUnits).sum = ((rs.map Meter.cpu.amount).sum : Nat) := by
  induction rs with
  | nil => rfl
  | cons r rs ih =>
    obtain ⟨hr, hrs⟩ := List.forall_mem_cons.1 h
    rw [List.map_cons, List.sum_cons, ih hrs, Meter.toUnits_eq hr, List.map_cons, List.sum_cons,
      Int.natCast_add]

/-! ### Balance -/

namespace Ledger

/-- Under the meter, what is available and what the running pods hold add up to the capacity. -/
structure Balanced (m : Meter) (l : Ledger) : Prop where
  /-- The capacity is exact. -/
  capacity : m.Exact l.capacity
  /-- What is available is exact. -/
  available : m.Exact l.available
  /-- Every request is exact. -/
  request : ∀ p ∈ l.pods, m.Exact p.request
  /-- Nothing is lost and nothing is made up. -/
  total : m.amount l.available + m.held l.pods = m.amount l.capacity

namespace Balanced

variable {m : Meter} {l : Ledger}

/-- An idle ledger is balanced. -/
theorem idle (name : String) {capacity : Resources} (h : m.Exact capacity) :
    Balanced m (Ledger.idle name capacity) :=
  ⟨h, h, fun _ hp => absurd hp List.not_mem_nil, rfl⟩

/-- The pods on a balanced ledger hold no more than the capacity. -/
theorem held_le (h : Balanced m l) : m.held l.pods ≤ m.amount l.capacity := by
  have htotal := h.total
  omega

/-- No more is available than the capacity. -/
theorem available_le (h : Balanced m l) : m.amount l.available ≤ m.amount l.capacity := by
  have htotal := h.total
  omega

/-- On an empty balanced ledger everything is available. -/
theorem available_eq (h : Balanced m l) (hempty : l.pods = []) :
    m.amount l.available = m.amount l.capacity := by
  have htotal := h.total
  rwa [hempty, Meter.held_nil, Nat.add_zero] at htotal

/-- Advancing keeps a ledger balanced: completed pods give back what they hold. -/
theorem advance (h : Balanced m l) (t : Seconds) : Balanced m (l.advance t) := by
  have hperm := completedBy_perm l t
  have hsplit : m.held (l.completedBy t).1 + m.held (l.advance t).pods = m.held l.pods := by
    rw [← m.held_append, m.held_perm hperm]
  have htotal := h.total
  have hrequests : ∀ r ∈ (l.completedBy t).1.map RunningPod.request, m.Exact r := by
    intro r hr
    obtain ⟨p, hp, rfl⟩ := List.mem_map.1 hr
    exact h.request p (hperm.subset (List.mem_append_left _ hp))
  have hheld : (((l.completedBy t).1.map RunningPod.request).map m.amount).sum =
      m.held (l.completedBy t).1 := by rw [List.map_map]; rfl
  obtain ⟨hexact, hsum⟩ := m.amount_foldl_add h.capacity _ h.available hrequests
    (by rw [hheld]; omega)
  rw [List.foldl_map, ← available_advance] at hexact hsum
  refine ⟨h.capacity, hexact, fun p hp => h.request p (mem_pods_of_mem_advance hp), ?_⟩
  rw [hsum, capacity_advance]
  omega

/-- Starting a pod that is admitted keeps a ledger balanced. -/
theorem start (h : Balanced m l) {p : RunningPod} (hp : m.Exact p.request)
    (hfit : l.refusal? p.request = none) : Balanced m (l.start p) := by
  have hle : m.amount p.request ≤ m.amount l.available := m.amount_le hp h.available hfit
  obtain ⟨hexact, hdiff⟩ := m.amount_sub h.available hp hle
  refine ⟨h.capacity, hexact, ?_, ?_⟩
  · intro q hq
    rcases mem_pods_start.1 hq with rfl | hq
    · exact hp
    · exact h.request q hq
  · have htotal := h.total
    rw [available_start, hdiff, m.held_perm (pods_start_perm l p), Meter.held_cons, capacity_start]
    omega

end Balanced

/-- Ledgers stay balanced under a meter that is exact for the requests. -/
theorem invariant_balanced (m : Meter) : Invariant m.Exact fun _ l => l.Balanced m where
  advance t h := h.advance t
  start hrequest h hfit := h.start hrequest hfit

end Ledger

end PodPlacement
