import Mathlib.Algebra.Order.BigOperators.Group.List
import Mathlib.Algebra.Order.Group.MinMax
import PodPlacement.Proofs.Ledger.Balance
import PodPlacement.Proofs.Number.Error

/-! # Rounding errors on a ledger

Every time a ledger gives something out or takes it back, what is available is off by one more rounding
error. A `Precision` bounds the amounts and the number of pods, so that all errors of a ledger together
are less than the CPU tolerance. Then a ledger goes over its capacity by one tolerance for each pod at
most: a request is admitted if it is at most a tolerance above what is available, and as what is
available is cut at zero the excess is forgotten.

* `Precision.operations_error_le` — all errors together are small.
* `Precision.sum_near` — the error of a sum of requests.
* `Precision.Exceeds` — what is available and what is held are within the capacity, up to a tolerance for
  each pod started and an error for each operation; `Exceeds.release`, `Exceeds.take` keep it so.
* `Precision.Exceeds.sum_cpu_le` — the sum of what is held, and by how much it goes over. -/

namespace PodPlacement

/-! ### Amounts -/

namespace Resources

/-- The CPU amount is finite and not negative. -/
def IsAmount (r : Resources) : Prop := r.cpu.isFinite = true ∧ 0 ≤ r.cpu

/-- An amount has a value that is not negative. -/
theorem IsAmount.value_nonneg {r : Resources} (h : r.IsAmount) : 0 ≤ r.cpu.value := by
  have hle := (Binary64.value_le_iff rfl (Binary64.isNaN_of_isFinite h.1)).1 h.2
  rwa [Binary64.value_zero] at hle

/-- The exact sum of CPU amounts. -/
def totalCpu (rs : List Resources) : ℚ := (rs.map fun r => r.cpu.value).sum

/-- Nothing adds up to nothing. -/
@[simp] theorem totalCpu_nil : totalCpu [] = 0 := rfl

/-- The first amount counts. -/
@[simp] theorem totalCpu_cons (r : Resources) (rs : List Resources) :
    totalCpu (r :: rs) = r.cpu.value + totalCpu rs := rfl

/-- The order does not matter. -/
theorem totalCpu_perm {rs rs' : List Resources} (h : rs.Perm rs') : totalCpu rs = totalCpu rs' :=
  (h.map _).sum_eq

/-- Amounts have no negative sum. -/
theorem totalCpu_nonneg {rs : List Resources} (h : ∀ r ∈ rs, r.IsAmount) : 0 ≤ totalCpu rs := by
  induction rs with
  | nil => exact le_rfl
  | cons r rs ih =>
    obtain ⟨hr, hrs⟩ := List.forall_mem_cons.1 h
    rw [totalCpu_cons]
    exact add_nonneg hr.value_nonneg (ih hrs)

/-- Some of the amounts add up to no more than all of them. -/
theorem totalCpu_le_of_subperm {rs all : List Resources} (h : rs.Subperm all)
    (hall : ∀ r ∈ all, r.IsAmount) : totalCpu rs ≤ totalCpu all := by
  obtain ⟨rs', hperm, hsub⟩ := h
  rw [← totalCpu_perm hperm]
  refine (hsub.map _).sum_le_sum ?_
  intro x hx
  obtain ⟨r, hr, rfl⟩ := List.mem_map.1 hx
  exact (hall r hr).value_nonneg

end Resources

/-! ### Errors -/

/-- Bounds on amounts and on the number of pods for which rounding errors never add up to the
tolerance. -/
structure Precision where
  /-- No amount that a ledger deals with is more than so many cores. -/
  cores : Nat
  /-- There are no more pods than this. -/
  pods : Nat
  /-- Rounding errors are small. -/
  small : (pods + 1) * (cores + 1) ≤ 2 ^ 21

namespace Precision

variable (p : Precision)

/-- The bound on all intermediate results. -/
def bound : ℚ := p.cores + 1

/-- The error of one operation. -/
def error : ℚ := p.bound / 2 ^ 53

/-- The bound is at least one. -/
theorem one_le_bound : 1 ≤ p.bound := by
  have hcores : (0 : ℚ) ≤ p.cores := Nat.cast_nonneg _
  unfold bound
  linarith

/-- There are not too many cores. -/
theorem cores_lt : p.cores < 2 ^ 21 := by
  have hsmall := p.small
  have hle : 1 * (p.cores + 1) ≤ (p.pods + 1) * (p.cores + 1) := Nat.mul_le_mul_right _ (by omega)
  omega

/-- The bound is far from infinity. -/
theorem bound_le : p.bound ≤ 2 ^ 64 := by
  have hcores : (p.cores : ℚ) ≤ ((2 ^ 21 : Nat) : ℚ) := Nat.cast_le.2 p.cores_lt.le
  push_cast at hcores
  unfold bound
  linarith

/-- Operations make errors. -/
theorem error_pos : 0 < p.error := div_pos (by linarith [p.one_le_bound]) (by norm_num)

/-- Errors add up. -/
theorem errors_nonneg (count : Nat) : 0 ≤ count * p.error :=
  mul_nonneg (Nat.cast_nonneg _) p.error_pos.le

/-- The errors of all operations on a ledger add up to little. -/
theorem operations_error_le {operations : Nat} (h : operations ≤ 2 * p.pods) :
    (operations + 2) * p.error ≤ 1 / 2 ^ 31 := by
  have hoperations : (operations : ℚ) + 2 ≤ 2 * (p.pods + 1) := by
    exact_mod_cast (by omega : operations + 2 ≤ 2 * (p.pods + 1))
  have hsmall : ((p.pods : ℚ) + 1) * (p.cores + 1) ≤ 2 ^ 21 := by exact_mod_cast p.small
  calc (operations + 2) * p.error
      ≤ 2 * (p.pods + 1) * p.error := mul_le_mul_of_nonneg_right hoperations p.error_pos.le
    _ = 2 * ((p.pods + 1) * (p.cores + 1)) / 2 ^ 53 := by rw [error, bound]; ring
    _ ≤ 2 * 2 ^ 21 / 2 ^ 53 := by gcongr
    _ = 1 / 2 ^ 31 := by norm_num

/-- The tolerances of all pods together are less than a core. -/
theorem tolerances_le {count : Nat} (h : count ≤ p.pods) :
    (count + 1) * Resources.cpuTolerance.value ≤ 9 / 2 ^ 12 := by
  have hcount : (count : ℚ) + 1 ≤ 2 ^ 21 := by
    have hle : (p.pods + 1) * 1 ≤ (p.pods + 1) * (p.cores + 1) := Nat.mul_le_mul_left _ (by omega)
    have hsmall := p.small
    exact_mod_cast (by omega : count + 1 ≤ 2 ^ 21)
  obtain ⟨hlow, hhigh⟩ := Binary64.value_tolerance_bounds
  calc (count + 1) * Resources.cpuTolerance.value
      ≤ 2 ^ 21 * (9 / 2 ^ 33) := mul_le_mul hcount hhigh (by linarith) (by norm_num)
    _ = 9 / 2 ^ 12 := by norm_num

variable {p}

/-- A sum within the bound is finite, and off by one error. -/
theorem add_near {x y : Binary64} (hx : x.isFinite = true) (hy : y.isFinite = true)
    (hlow : -p.bound ≤ x.value + y.value) (hhigh : x.value + y.value ≤ p.bound) :
    (x + y).isFinite = true ∧ x.value + y.value - p.error ≤ (x + y).value ∧
      (x + y).value ≤ x.value + y.value + p.error := by
  obtain ⟨hfinite, hround⟩ :=
    Binary64.value_add p.one_le_bound p.bound_le hx hy (abs_le.2 ⟨hlow, hhigh⟩)
  rw [← error, abs_le] at hround
  exact ⟨hfinite, by linarith, by linarith⟩

/-- An admitted request is at most a tolerance and an error above what is available. -/
theorem value_le_of_admitted {a r : Resources} (ha : a.cpu.isFinite = true)
    (hr : r.cpu.isFinite = true) (hlow : -(1 / 4) ≤ a.cpu.value)
    (hhigh : a.cpu.value ≤ p.cores + 1 / 4)
    (hfit : ¬ a.cpu + Resources.cpuTolerance < r.cpu) :
    r.cpu.value ≤ a.cpu.value + Resources.cpuTolerance.value + p.error := by
  obtain ⟨hlow', hhigh'⟩ := Binary64.value_tolerance_bounds
  have hcores := p.one_le_bound
  obtain ⟨hfinite, -, hround⟩ := add_near (p := p) ha Binary64.tolerance_small.1 (by linarith)
    (by unfold bound; linarith)
  have hnum := Binary64.isNaN_of_isFinite hfinite
  have hnum' := Binary64.isNaN_of_isFinite hr
  rw [← Binary64.not_le_iff hnum' hnum, not_not, Binary64.value_le_iff hnum' hnum] at hfit
  linarith

/-- A difference of an admitted request is finite, and off by one error; then it is cut at zero. -/
theorem sub_near {a r : Resources} (ha : a.cpu.isFinite = true) (hr : r.cpu.isFinite = true)
    (hadmitted : r.cpu.value ≤ a.cpu.value + Resources.cpuTolerance.value + p.error)
    (hhigh : a.cpu.value - r.cpu.value ≤ p.bound) :
    (a - r).cpu.isFinite = true ∧ ∃ difference : ℚ, (a - r).cpu.value = max difference 0 ∧
      |difference - (a.cpu.value - r.cpu.value)| ≤ p.error := by
  have hlow : -p.bound ≤ a.cpu.value - r.cpu.value := by
    have herror := p.operations_error_le (Nat.zero_le _)
    rw [Nat.cast_zero] at herror
    obtain ⟨-, htolerance⟩ := Binary64.value_tolerance_bounds
    linarith [p.one_le_bound]
  obtain ⟨hfinite, hround⟩ :=
    Binary64.value_sub p.one_le_bound p.bound_le ha hr (abs_le.2 ⟨hlow, hhigh⟩)
  have hcut := Binary64.value_maxNum_zero (Binary64.isNaN_of_isFinite hfinite)
  refine ⟨?_, (a.cpu - r.cpu).value, hcut, hround⟩
  rw [Resources.cpu_sub]
  rcases Binary64.maxNum_eq_or (a.cpu - r.cpu) 0 with hmax | hmax <;> rw [hmax]
  · exact hfinite
  · exact Binary64.isFinite_zero

/-! ### Sums -/

/-- Adding some requests in turn adds one error for each, to a sum that is itself off by some errors. -/
theorem foldl_near (rs : List Resources) (hrs : ∀ r ∈ rs, r.IsAmount) {a : Resources} {exact : ℚ}
    {errors : Nat} (ha : a.cpu.isFinite = true) (hnear : |a.cpu.value - exact| ≤ errors * p.error)
    (hexact : 0 ≤ exact)
    (hbound : exact + Resources.totalCpu rs + (errors + rs.length) * p.error ≤ p.bound) :
    (rs.foldl (· + ·) a).cpu.isFinite = true ∧
      |(rs.foldl (· + ·) a).cpu.value - (exact + Resources.totalCpu rs)| ≤
        (errors + rs.length) * p.error := by
  -- The sum so far and its exact value change with every request, and one more error is made.
  induction rs generalizing a exact errors with
  | nil => simpa using ⟨ha, hnear⟩
  | cons r rs ih =>
    obtain ⟨hr, hrs⟩ := List.forall_mem_cons.1 hrs
    have hnonneg := hr.value_nonneg
    have hrest := Resources.totalCpu_nonneg hrs
    have hpos := p.error_pos
    have herrors := p.errors_nonneg rs.length
    rw [Resources.totalCpu_cons, List.length_cons] at hbound ⊢
    push_cast at hbound ⊢
    rw [abs_le] at hnear
    obtain ⟨hfinite, hlow, hhigh⟩ := add_near (p := p) ha hr.1 (by linarith) (by linarith)
    have hnear' : |(a + r).cpu.value - (exact + r.cpu.value)| ≤ (errors + 1 : Nat) * p.error := by
      rw [Resources.cpu_add, abs_le]
      push_cast
      constructor <;> linarith
    have hall := ih hrs hfinite hnear' (by linarith) (by push_cast; linarith)
    push_cast at hall
    rw [List.foldl_cons, ← add_assoc, add_comm (rs.length : ℚ), ← add_assoc]
    exact hall

/-- A sum of requests is off by one error for each. -/
theorem sum_near (rs : List Resources) (hrs : ∀ r ∈ rs, r.IsAmount)
    (hbound : Resources.totalCpu rs + rs.length * p.error ≤ p.bound) :
    (Resources.sum rs).cpu.isFinite = true ∧
      |(Resources.sum rs).cpu.value - Resources.totalCpu rs| ≤ rs.length * p.error := by
  have hzero : |Resources.zero.cpu.value - 0| ≤ (0 : Nat) * p.error := by
    show |(0 : Binary64).value - 0| ≤ _
    simp
  have hfinite : Resources.zero.cpu.isFinite = true := Binary64.isFinite_zero
  have hfold := foldl_near rs hrs hfinite hzero le_rfl (by simpa using hbound)
  rw [Nat.cast_zero, zero_add, zero_add] at hfold
  exact hfold

/-! ### How much is held -/

/-- After some operations, some of them starts of pods, what is available of a capacity and what is held
are within the capacity, up to a tolerance for each start and an error for each operation. -/
structure Exceeds (p : Precision) (starts operations : Nat) (capacity available : Resources)
    (held : List Resources) : Prop where
  /-- What is available is finite. -/
  finite : available.cpu.isFinite = true
  /-- What is available is hardly negative. -/
  nonneg : -(operations * p.error) ≤ available.cpu.value
  /-- Amounts are held. -/
  amounts : ∀ r ∈ held, r.IsAmount
  /-- The capacity is within the bound. -/
  capacity_le : capacity.cpu.value ≤ p.cores
  /-- What is available and what is held are within the capacity, nearly. -/
  total : available.cpu.value + Resources.totalCpu held ≤
    capacity.cpu.value + starts * Resources.cpuTolerance.value + operations * p.error

namespace Exceeds

variable {starts operations : Nat} {capacity available r : Resources} {held : List Resources}

/-- What is available is hardly negative, and together with what is held it is hardly more than the
bound on all amounts. -/
theorem bounds (h : p.Exceeds starts operations capacity available held) (hstarts : starts ≤ p.pods)
    (hops : operations ≤ 2 * p.pods) : -(1 / 4) ≤ available.cpu.value ∧
      available.cpu.value + Resources.totalCpu held ≤ p.cores + 1 / 4 := by
  have hnonneg := h.nonneg
  have htotal := h.total
  have hcapacity := h.capacity_le
  have herror := p.operations_error_le hops
  have htolerance := p.tolerances_le hstarts
  have hpos := p.error_pos
  obtain ⟨hlow, -⟩ := Binary64.value_tolerance_bounds
  constructor <;> linarith

/-- Taking back what was held adds an error. -/
theorem release (h : p.Exceeds starts operations capacity available (r :: held))
    (hstarts : starts ≤ p.pods) (hops : operations ≤ 2 * p.pods) :
    p.Exceeds starts (operations + 1) capacity (available + r) held := by
  obtain ⟨hr, hheld⟩ := List.forall_mem_cons.1 h.amounts
  obtain ⟨hlow, hhigh⟩ := h.bounds hstarts hops
  have htotal := h.total
  have hnonneg := h.nonneg
  have hvalue := hr.value_nonneg
  have hrest := Resources.totalCpu_nonneg hheld
  have hone := p.one_le_bound
  rw [Resources.totalCpu_cons] at htotal hhigh
  obtain ⟨hfinite, hround, hround'⟩ := add_near (p := p) h.finite hr.1 (by linarith)
    (by unfold bound; linarith)
  refine ⟨hfinite, ?_, hheld, h.capacity_le, ?_⟩
  · rw [Resources.cpu_add]
    push_cast
    linarith
  · rw [Resources.cpu_add]
    push_cast
    linarith

/-- Giving out an admitted request adds a tolerance and an error: either what is available is less by
the request, or it is zero and the request was hardly above it. -/
theorem take (h : p.Exceeds starts operations capacity available held) (hr : r.IsAmount)
    (hstarts : starts ≤ p.pods) (hops : operations ≤ 2 * p.pods)
    (hfit : ¬ available.cpu + Resources.cpuTolerance < r.cpu) :
    p.Exceeds (starts + 1) (operations + 1) capacity (available - r) (r :: held) := by
  obtain ⟨hlow, hhigh⟩ := h.bounds hstarts hops
  have htotal := h.total
  have hvalue := hr.value_nonneg
  have hrest := Resources.totalCpu_nonneg h.amounts
  have hadmitted := value_le_of_admitted (p := p) h.finite hr.1 hlow (by linarith) hfit
  obtain ⟨hfinite, difference, hcut, hround⟩ := sub_near (p := p) h.finite hr.1 hadmitted
    (by unfold bound; linarith)
  rw [abs_le] at hround
  have herrors := p.errors_nonneg operations
  have hpos := p.error_pos
  obtain ⟨htolerance, -⟩ := Binary64.value_tolerance_bounds
  -- If the difference is cut, `hadmitted` bounds by how much the request was above what is available.
  refine ⟨hfinite, ?_, List.forall_mem_cons.2 ⟨hr, h.amounts⟩, h.capacity_le, ?_⟩
  · have hzero : 0 ≤ (available - r).cpu.value := hcut ▸ le_max_right _ _
    push_cast
    linarith
  · rw [hcut, Resources.totalCpu_cons]
    push_cast
    rcases max_cases difference 0 with ⟨hmax, -⟩ | ⟨hmax, -⟩ <;> rw [hmax] <;> linarith

/-- What is held goes over the capacity by a tolerance for each pod that was started and one more at
most. -/
theorem sum_cpu_le {rs : List Resources} (h : p.Exceeds starts operations capacity available held)
    (hstarts : starts ≤ p.pods) (hops : operations + held.length = 2 * starts)
    (hsub : rs.Subperm held) : (Resources.sum rs).cpu.value ≤
      capacity.cpu.value + (starts + 1) * Resources.cpuTolerance.value := by
  obtain ⟨hlow, hhigh⟩ := h.bounds hstarts (by omega)
  have htotal := h.total
  have hnonneg := h.nonneg
  have hle := Resources.totalCpu_le_of_subperm hsub h.amounts
  have hpos := p.error_pos
  have hlength : (rs.length : ℚ) * p.error ≤ held.length * p.error :=
    mul_le_mul_of_nonneg_right (Nat.cast_le.2 hsub.length_le) hpos.le
  -- All errors, those of the sum among them, are less than a tolerance.
  have herrors : (2 * operations + held.length : Nat) * p.error ≤ 1 / 2 ^ 30 := by
    have herror := p.operations_error_le (Nat.mul_le_mul_left 2 hstarts)
    have hcount : ((2 * operations + held.length : Nat) : ℚ) ≤ 2 * (2 * starts : Nat) := by
      exact_mod_cast (by omega : 2 * operations + held.length ≤ 2 * (2 * starts))
    have hscaled := mul_le_mul_of_nonneg_right hcount hpos.le
    linarith
  push_cast at herrors
  have hoperations := p.errors_nonneg operations
  have hlengths := p.errors_nonneg held.length
  obtain ⟨-, hsum⟩ := sum_near (p := p) rs (fun r hr => h.amounts r (hsub.subset hr))
    (by unfold bound; linarith)
  rw [abs_le] at hsum
  obtain ⟨htolerance, -⟩ := Binary64.value_tolerance_bounds
  linarith

end Exceeds

/-- How far a ledger is off is an account that its operations keep. -/
theorem account_exceeds (p : Precision) : Account p.pods Resources.IsAmount p.Exceeds where
  perm h hperm := ⟨h.finite, h.nonneg, fun r hr => h.amounts r (hperm.mem_iff.2 hr), h.capacity_le,
    Resources.totalCpu_perm hperm ▸ h.total⟩
  release h hstarts hops := h.release hstarts hops
  take h hr hstarts hops hfit := h.take hr hstarts hops (Resources.shortage?_eq_none.1 hfit).1

/-- If nothing is held, a capacity within the bound is not exceeded. -/
theorem exceeds_self {capacity : Resources} (h : capacity.IsAmount) (hle : capacity.cpu.value ≤ p.cores) :
    p.Exceeds 0 0 capacity capacity [] := by
  refine ⟨h.1, ?_, fun r hr => absurd hr List.not_mem_nil, hle, ?_⟩
  · simpa using h.value_nonneg
  · simp

end Precision

end PodPlacement
