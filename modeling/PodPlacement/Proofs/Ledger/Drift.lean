import PodPlacement.Proofs.Ledger.Precision

/-! # How far a ledger drifts

Amounts such as a tenth of a core are not exact, so what is available on a ledger moves a little away
from what it should be. It does not matter as long as all amounts are whole parts of a core and a part is
larger than the CPU tolerance and all errors together: then a request that is admitted is within what
should be available, and no tolerance is ever used up.

* `Granularity` — parts of a core for which errors do not matter.
* `Granularity.Covers` — the available CPU is near a whole number of parts, and these parts and what is
  held are within the capacity up to rounding errors.
* `Covers.release`, `Covers.take` — one operation of a ledger adds two errors.
* `account_covers` — so every ledger stays near where it should be.
* `Covers.sum_cpu_le` — the sum of what is held is within the capacity up to the tolerance. -/

namespace PodPlacement

/-- Parts of a core as the unit of amounts: the parts are so large, and rounding errors so small, that
the tolerance and all errors together never add up to a part. -/
structure Granularity extends Precision where
  /-- How many parts a core has. -/
  den : Nat
  /-- A core has parts. -/
  den_pos : 0 < den
  /-- A part is at least twice the tolerance. -/
  den_le : den ≤ 5 * 10 ^ 8

namespace Granularity

variable (g : Granularity)

/-- The CPU amount is a whole number of parts of a core, divided in doubles. -/
def Measures (r : Resources) : Prop := ∃ k ≤ g.cores * g.den, r.cpu = .ofNat k / .ofNat g.den

/-- A part of a core is larger than the tolerance and the errors. -/
theorem le_one_div_den : 17 / 2 ^ 33 ≤ 1 / (g.den : ℚ) := by
  have hden : (0 : ℚ) < g.den := Nat.cast_pos.2 g.den_pos
  have hle : (g.den : ℚ) ≤ 5 * 10 ^ 8 := by exact_mod_cast g.den_le
  rw [div_le_div_iff₀ (by norm_num) hden]
  linarith

/-- A number of parts is not negative. -/
theorem parts_nonneg (parts : Nat) : (0 : ℚ) ≤ parts / g.den :=
  div_nonneg (Nat.cast_nonneg _) (Nat.cast_nonneg _)

variable {g}

namespace Measures

variable {r : Resources}

/-- An amount of parts is near the number of parts it stands for. -/
theorem near (h : g.Measures r) : r.cpu.isFinite = true ∧ 0 ≤ r.cpu.value ∧ ∃ k : Nat,
    (k : ℚ) / g.den ≤ g.cores ∧ |r.cpu.value - k / g.den| ≤ g.error := by
  obtain ⟨k, hk, hr⟩ := h
  have hden : (0 : ℚ) < g.den := Nat.cast_pos.2 g.den_pos
  have hle : (k : ℚ) / g.den ≤ g.cores := by
    rw [div_le_iff₀ hden]
    exact_mod_cast hk
  have hsmall : k ≤ 2 ^ 53 :=
    calc k ≤ g.cores * g.den := hk
      _ ≤ 2 ^ 21 * (5 * 10 ^ 8) := Nat.mul_le_mul g.cores_lt.le g.den_le
      _ ≤ 2 ^ 53 := by norm_num
  obtain ⟨hfinite, hnonneg, herror⟩ := Binary64.value_ofNat_div_ofNat g.one_le_bound g.bound_le
    hsmall (g.den_le.trans (by norm_num)) g.den_pos (by unfold Precision.bound; linarith)
  rw [hr]
  exact ⟨hfinite, hnonneg, k, hle, herror⟩

/-- An amount of parts is hardly above the number of cores. -/
theorem value_le (h : g.Measures r) : r.cpu.value ≤ g.cores + g.error := by
  obtain ⟨-, -, k, hk, hnear⟩ := h.near
  linarith [(abs_le.1 hnear).2]

/-- An amount of parts is an amount. -/
theorem isAmount (h : g.Measures r) : r.IsAmount := by
  obtain ⟨hfinite, hnonneg, -⟩ := h.near
  refine ⟨hfinite, (Binary64.value_le_iff rfl (Binary64.isNaN_of_isFinite hfinite)).2 ?_⟩
  rwa [Binary64.value_zero]

end Measures

/-! ### What is covered -/

/-- After some operations, what is available of a capacity is near a whole number of parts, and these
parts and what is held are within the capacity up to the errors. -/
structure Covers (g : Granularity) (operations : Nat) (capacity available : Resources)
    (held : List Resources) : Prop where
  /-- What is available is finite. -/
  finite : available.cpu.isFinite = true
  /-- What is held is measured. -/
  measured : ∀ r ∈ held, g.Measures r
  /-- The capacity is measured. -/
  whole : g.Measures capacity
  /-- What is available is near a whole number of parts. -/
  near : ∃ parts : Nat,
    |available.cpu.value - parts / g.den| ≤ (2 * operations + 1) * g.error ∧
      parts / g.den + Resources.totalCpu held ≤ capacity.cpu.value + (operations + 1) * g.error

namespace Covers

variable {operations : Nat} {capacity available r : Resources} {held : List Resources}

/-- Amounts are held. -/
theorem amounts (h : g.Covers operations capacity available held) : ∀ r ∈ held, r.IsAmount :=
  fun r hr => (h.measured r hr).isAmount

/-- What is held is within the capacity up to the errors. -/
theorem totalCpu_le (h : g.Covers operations capacity available held) :
    Resources.totalCpu held ≤ capacity.cpu.value + (operations + 1) * g.error := by
  obtain ⟨parts, -, hsum⟩ := h.near
  linarith [g.parts_nonneg parts]

/-- What is available is hardly negative, and together with what is held it is hardly more than the
bound on all amounts. -/
theorem bounds (h : g.Covers operations capacity available held) (hops : operations ≤ 2 * g.pods) :
    -(1 / 4) ≤ available.cpu.value ∧
      available.cpu.value + Resources.totalCpu held ≤ g.cores + 1 / 4 := by
  obtain ⟨parts, hparts, hsum⟩ := h.near
  have hnonneg := g.parts_nonneg parts
  have hcapacity := h.whole.value_le
  have herror := g.operations_error_le hops
  have hpos := g.error_pos
  rw [abs_le] at hparts
  constructor <;> linarith

/-- Taking back what was held adds two errors. -/
theorem release (h : g.Covers operations capacity available (r :: held))
    (hops : operations ≤ 2 * g.pods) : g.Covers (operations + 1) capacity (available + r) held := by
  obtain ⟨hr, hheld⟩ := List.forall_mem_cons.1 h.measured
  obtain ⟨hfinite, hnonneg, k, -, hk⟩ := hr.near
  obtain ⟨parts, hparts, hsum⟩ := h.near
  obtain ⟨hlow, hhigh⟩ := h.bounds hops
  rw [Resources.totalCpu_cons] at hsum hhigh
  have hrest := Resources.totalCpu_nonneg fun q hq => (hheld q hq).isAmount
  have hone := g.one_le_bound
  obtain ⟨hfinite', hround, hround'⟩ := Precision.add_near (p := g.toPrecision) h.finite hfinite
    (by linarith) (by unfold Precision.bound; linarith)
  have hsplit : ((parts + k : Nat) : ℚ) / g.den = parts / g.den + k / g.den := by
    rw [Nat.cast_add, add_div]
  rw [abs_le] at hparts hk
  refine ⟨hfinite', hheld, h.whole, parts + k, ?_, ?_⟩
  · rw [hsplit, Resources.cpu_add, abs_le]
    push_cast
    constructor <;> linarith
  · rw [hsplit]
    push_cast
    linarith

/-- An admitted request has no more parts than what is available: one more part would be more than the
tolerance and the errors. -/
theorem parts_le (hops : operations ≤ 2 * g.pods)
    (hadmitted : r.cpu.value ≤ available.cpu.value + Resources.cpuTolerance.value + g.error)
    {parts k : Nat} (hparts : |available.cpu.value - parts / g.den| ≤ (2 * operations + 1) * g.error)
    (hk : |r.cpu.value - k / g.den| ≤ g.error) : k ≤ parts := by
  by_contra hlt
  have hden : (0 : ℚ) < g.den := Nat.cast_pos.2 g.den_pos
  have hgap : (parts : ℚ) / g.den + 1 / g.den ≤ k / g.den := by
    rw [← add_div, div_le_div_iff_of_pos_right hden]
    exact_mod_cast (by omega : parts + 1 ≤ k)
  have hpart := g.le_one_div_den
  have herror := g.operations_error_le hops
  have hpos := g.error_pos
  obtain ⟨-, htolerance⟩ := Binary64.value_tolerance_bounds
  rw [abs_le] at hparts hk
  linarith

/-- Giving out an admitted request adds two errors, and nothing is lost when the difference is cut at
zero. -/
theorem take (h : g.Covers operations capacity available held) (hr : g.Measures r)
    (hops : operations ≤ 2 * g.pods) (hfit : ¬ available.cpu + Resources.cpuTolerance < r.cpu) :
    g.Covers (operations + 1) capacity (available - r) (r :: held) := by
  obtain ⟨hfinite, hnonneg, k, hcores, hk⟩ := hr.near
  obtain ⟨parts, hparts, hsum⟩ := h.near
  obtain ⟨hlow, hhigh⟩ := h.bounds hops
  have hrest := Resources.totalCpu_nonneg h.amounts
  have hadmitted := Precision.value_le_of_admitted (p := g.toPrecision) h.finite hfinite hlow
    (by linarith) hfit
  have hle : k ≤ parts := parts_le hops hadmitted hparts hk
  obtain ⟨hfinite', difference, hcut, hround⟩ := Precision.sub_near (p := g.toPrecision) h.finite hfinite
    hadmitted (by unfold Precision.bound; linarith)
  have hsplit : ((parts - k : Nat) : ℚ) / g.den = parts / g.den - k / g.den := by
    rw [Nat.cast_sub hle, sub_div]
  rw [abs_le] at hk
  refine ⟨hfinite', List.forall_mem_cons.2 ⟨hr, h.measured⟩, h.whole, parts - k, ?_, ?_⟩
  · -- A number of parts is not negative, so cutting at zero only brings the difference closer to it.
    have hclose := abs_max_sub_max_le_abs difference ((parts - k : Nat) / g.den) 0
    rw [max_eq_left (g.parts_nonneg _), ← hcut] at hclose
    refine hclose.trans ?_
    rw [hsplit]
    rw [abs_le] at hparts hround ⊢
    push_cast
    constructor <;> linarith
  · rw [hsplit, Resources.totalCpu_cons]
    push_cast
    linarith

/-- The sum of some of what is held is within the capacity up to the tolerance. -/
theorem sum_cpu_le {rs : List Resources} (h : g.Covers operations capacity available held)
    (hops : operations + held.length ≤ 2 * g.pods) (hsub : rs.Subperm held) :
    (Resources.sum rs).cpu ≤ capacity.cpu + Resources.cpuTolerance := by
  obtain ⟨hfinite, hnonneg, -⟩ := h.whole.near
  have hcapacity := h.whole.value_le
  -- All errors together are less than the tolerance.
  have herror := g.operations_error_le hops
  push_cast at herror
  have hpos := g.error_pos
  have hoperations := g.errors_nonneg operations
  have hlengths := g.errors_nonneg held.length
  obtain ⟨hlow, hhigh⟩ := Binary64.value_tolerance_bounds
  have hlength : (rs.length : ℚ) * g.error ≤ held.length * g.error :=
    mul_le_mul_of_nonneg_right (Nat.cast_le.2 hsub.length_le) hpos.le
  have hle := Resources.totalCpu_le_of_subperm hsub h.amounts
  have hheld := h.totalCpu_le
  obtain ⟨hsumFinite, hsum⟩ := Precision.sum_near (p := g.toPrecision) rs
    (fun r hr => h.amounts r (hsub.subset hr)) (by unfold Precision.bound; linarith)
  obtain ⟨hfinite', hround, -⟩ := Precision.add_near (p := g.toPrecision) hfinite
    Binary64.tolerance_small.1 (by linarith [g.one_le_bound]) (by unfold Precision.bound; linarith)
  rw [Binary64.value_le_iff (Binary64.isNaN_of_isFinite hsumFinite)
    (Binary64.isNaN_of_isFinite hfinite')]
  rw [abs_le] at hsum
  linarith

end Covers

/-- What is covered is an account that the operations of a ledger keep. -/
theorem account_covers (g : Granularity) :
    Account g.pods g.Measures fun _ operations => g.Covers operations where
  perm h hperm := by
    obtain ⟨parts, hnear, hsum⟩ := h.near
    rw [Resources.totalCpu_perm hperm] at hsum
    exact ⟨h.finite, fun r hr => h.measured r (hperm.mem_iff.2 hr), h.whole, parts, hnear, hsum⟩
  release h _ hops := h.release hops
  take h hr _ hops hfit := h.take hr hops (Resources.shortage?_eq_none.1 hfit).1

/-- If nothing is held, a measured capacity covers itself. -/
theorem covers_self {capacity : Resources} (h : g.Measures capacity) :
    g.Covers 0 capacity capacity [] := by
  obtain ⟨hfinite, -, k, -, hk⟩ := h.near
  refine ⟨hfinite, fun r hr => absurd hr List.not_mem_nil, h, k, by simpa using hk, ?_⟩
  rw [Resources.totalCpu_nil]
  push_cast
  linarith [(abs_le.1 hk).1]

end Granularity

end PodPlacement
