import Mathlib.Data.Nat.Cast.Order.Field
import Mathlib.Data.Rat.Cast.Order
import Mathlib.Tactic.FieldSimp
import Mathlib.Tactic.Linarith
import Mathlib.Tactic.Positivity
import Mathlib.Tactic.Ring
import PodPlacement.Proofs.Number.Exact

/-! # Rounding errors

The `value` of a double is the rational number it stands for. An operation whose exact result is at most
`bound` is off by at most `bound / 2 ^ 53`, as long as the bound is at least one and far from infinity.

* `abs_roundToEven_sub_le`, `abs_roundSignificant_sub_le` — rounding a quotient of natural numbers.
* `value_le_iff` — the order of doubles is that of their values.
* `value_add`, `value_sub`, `value_ofNat_div_ofNat` — the errors of the operations on amounts.
* `value_tolerance_bounds` — how large the CPU tolerance is. -/

namespace PodPlacement

/-! ### Rounding a quotient -/

/-- Rounding to even moves a quotient by one half at most. -/
theorem abs_roundToEven_sub_le (num : Nat) {den : Nat} (hden : 0 < den) :
    |(roundToEven num den : ℚ) - num / den| ≤ 1 / 2 := by
  have hpos : (0 : ℚ) < den := Nat.cast_pos.2 hden
  have hnum : (num : ℚ) / den = (num / den : Nat) + (num % den : Nat) / den := by
    rw [div_eq_iff hpos.ne', add_mul, div_mul_cancel₀ _ hpos.ne']
    exact_mod_cast (Nat.div_add_mod' num den).symm
  have hrem : ((num % den : Nat) : ℚ) / den < 1 := by
    rw [div_lt_one hpos]
    exact_mod_cast Nat.mod_lt num hden
  have hnonneg : (0 : ℚ) ≤ (num % den : Nat) / den := by positivity
  rw [hnum, roundToEven]
  split
  · rename_i hdown
    have hhalf : ((num % den : Nat) : ℚ) / den ≤ 1 / 2 := by
      rw [div_le_div_iff₀ hpos two_pos]
      exact_mod_cast (by omega : num % den * 2 ≤ 1 * den)
    rw [abs_le]
    constructor <;> linarith
  · rename_i hup
    have hhalf : 1 / 2 ≤ ((num % den : Nat) : ℚ) / den := by
      rw [div_le_div_iff₀ two_pos hpos]
      exact_mod_cast (by omega : 1 * den ≤ num % den * 2)
    rw [abs_le]
    push_cast
    constructor <;> linarith

/-- The step between 53-bit numbers as large as a quotient. -/
theorem step_le {num den : Nat} {bound : ℚ} (hbound : (num : ℚ) / den ≤ bound) (hlarge : 2 ^ 52 ≤ bound) :
    ((2 ^ ((num / den).log2 - 52) : Nat) : ℚ) ≤ bound / 2 ^ 52 := by
  rw [le_div_iff₀ (by positivity)]
  -- Up to 53 bits the step is one; beyond, the leading bit of the quotient bounds it.
  by_cases hlog : (num / den).log2 ≤ 52
  · rw [Nat.sub_eq_zero_of_le hlog]
    simpa using hlarge
  · have hne : num / den ≠ 0 := by
      intro h
      rw [h] at hlog
      simp at hlog
    have hpow : 2 ^ ((num / den).log2 - 52) * 2 ^ 52 = 2 ^ (num / den).log2 := by
      rw [← Nat.pow_add, Nat.sub_add_cancel (by omega)]
    calc ((2 ^ ((num / den).log2 - 52) : Nat) : ℚ) * 2 ^ 52
        = ((2 ^ (num / den).log2 : Nat) : ℚ) := by rw [← hpow]; push_cast; ring
      _ ≤ ((num / den : Nat) : ℚ) := by exact_mod_cast Nat.log2_self_le hne
      _ ≤ (num : ℚ) / den := Nat.cast_div_le
      _ ≤ bound := hbound

/-- Rounding to 53 bits moves a quotient by half a step at most. -/
theorem abs_roundSignificant_sub_le {num den : Nat} {bound : ℚ} (hden : 0 < den)
    (hbound : (num : ℚ) / den ≤ bound) (hlarge : 2 ^ 52 ≤ bound) :
    |(roundSignificant num den : ℚ) - num / den| ≤ bound / 2 ^ 53 := by
  have hstep := step_le hbound hlarge
  rw [roundSignificant]
  generalize hs : 2 ^ ((num / den).log2 - 52) = step at hstep ⊢
  have hpos : 0 < step := by rw [← hs]; exact Nat.two_pow_pos _
  have hposq : (0 : ℚ) < step := Nat.cast_pos.2 hpos
  have hround := abs_roundToEven_sub_le num (Nat.mul_pos hden hpos)
  have hsplit : ((roundToEven num (den * step) * step : Nat) : ℚ) - num / den =
      ((roundToEven num (den * step) : ℚ) - num / (den * step : Nat)) * step := by
    push_cast
    field_simp
  calc |((roundToEven num (den * step) * step : Nat) : ℚ) - num / den|
      = |(roundToEven num (den * step) : ℚ) - num / (den * step : Nat)| * step := by
        rw [hsplit, abs_mul, abs_of_pos hposq]
    _ ≤ 1 / 2 * step := mul_le_mul_of_nonneg_right hround hposq.le
    _ ≤ 1 / 2 * (bound / 2 ^ 52) := by linarith
    _ = bound / 2 ^ 53 := by ring

namespace Magnitude

/-- A quotient of units far from infinity is rounded to a finite magnitude near it. -/
theorem abs_units_round_sub_le {num den : Nat} {bound : ℚ} (hden : 0 < den)
    (hbound : (num : ℚ) / den ≤ bound) (hlarge : 2 ^ 52 ≤ bound) (hsmall : 2 * bound ≤ overflowUnits) :
    (round num den).isInfinite = false ∧ |((round num den).units : ℚ) - num / den| ≤ bound / 2 ^ 53 := by
  have herror := abs_roundSignificant_sub_le hden hbound hlarge
  have hlt : roundSignificant num den < overflowUnits := by
    have hupper := (abs_le.1 herror).2
    have hslack : bound / 2 ^ 53 < bound := div_lt_self (by linarith) (by norm_num)
    exact_mod_cast (by linarith : (roundSignificant num den : ℚ) < overflowUnits)
  have hunits : (round num den).units = roundSignificant num den := Nat.min_eq_left hlt.le
  rw [isInfinite, hunits]
  exact ⟨beq_eq_false_iff_ne.2 hlt.ne, herror⟩

end Magnitude

namespace Binary64

/-! ### Values -/

/-- The rational number a finite double stands for. -/
def value (x : Binary64) : ℚ := x.toUnits / unitsPerOne

/-- One is made of units. -/
theorem unitsPerOne_cast_pos : (0 : ℚ) < unitsPerOne := Nat.cast_pos.2 unitsPerOne_pos

/-- Zero has the value zero. -/
@[simp] theorem value_zero : (0 : Binary64).value = 0 := by
  rw [value, toUnits_zero, Int.cast_zero, zero_div]

/-- The opposite of a double has the opposite value. -/
@[simp] theorem value_neg (x : Binary64) : (-x).value = -x.value := by
  rw [value, value, toUnits_neg]
  push_cast
  ring

/-- The order of doubles that are numbers is that of their values. -/
theorem value_le_iff {x y : Binary64} (hx : x.isNaN = false) (hy : y.isNaN = false) :
    x ≤ y ↔ x.value ≤ y.value := by
  rw [le_iff_toUnits_le hx hy, value, value, div_le_div_iff_of_pos_right unitsPerOne_cast_pos, Int.cast_le]

/-- Cutting a number at zero cuts its value at zero. -/
theorem value_maxNum_zero {x : Binary64} (hx : x.isNaN = false) : (x.maxNum 0).value = max x.value 0 := by
  rcases le_total x.value 0 with h | h
  · have hunits : x.toUnits ≤ 0 := by
      have hle : x ≤ 0 := (value_le_iff hx rfl).2 (by rwa [value_zero])
      have hunits := (le_iff.1 hle).2.2
      rwa [toUnits_zero] at hunits
    rw [max_eq_right h, value, toUnits_maxNum hx rfl, toUnits_zero, max_eq_right hunits, Int.cast_zero,
      zero_div]
  · have hunits : 0 ≤ x.toUnits := by
      have hle : 0 ≤ x := (value_le_iff rfl hx).2 (by rwa [value_zero])
      have hunits := (le_iff.1 hle).2.2
      rwa [toUnits_zero] at hunits
    rw [max_eq_left h, value, toUnits_maxNum hx rfl, toUnits_zero, max_eq_left hunits, value]

/-! ### Errors of the operations -/

/-- A number of units far from infinity is rounded to a finite double near it. -/
theorem abs_toUnits_ofUnits_sub_le (zeroSign : Bool) {u : Int} {bound : ℚ} (hbound : |(u : ℚ)| ≤ bound)
    (hlarge : 2 ^ 52 ≤ bound) (hsmall : 2 * bound ≤ overflowUnits) :
    (ofUnits zeroSign u).isFinite = true ∧
      |((ofUnits zeroSign u).toUnits : ℚ) - u| ≤ bound / 2 ^ 53 := by
  rw [ofUnits]
  split
  · -- Neither zero has units, and the sum has none.
    rename_i hzero
    have hnonneg : 0 ≤ bound / 2 ^ 53 := div_nonneg (by linarith) (by norm_num)
    refine ⟨isFinite_signedZero zeroSign, ?_⟩
    rw [hzero, toUnits_signedZero, sub_self, abs_zero]
    exact hnonneg
  · have habs : ((u.natAbs : Nat) : ℚ) = |(u : ℚ)| := by rw [Nat.cast_natAbs, Int.cast_abs]
    have hquotient : ((u.natAbs : Nat) : ℚ) / (1 : Nat) ≤ bound := by
      rw [Nat.cast_one, div_one, habs]
      exact hbound
    obtain ⟨hfinite, herror⟩ :=
      Magnitude.abs_units_round_sub_le Nat.one_pos hquotient hlarge hsmall
    rw [Nat.cast_one, div_one, habs] at herror
    refine ⟨by rw [isFinite, hfinite]; rfl, ?_⟩
    by_cases hneg : u < 0
    · have hcast : (u : ℚ) < 0 := Int.cast_lt_zero.2 hneg
      rw [decide_eq_true hneg, toUnits]
      rw [abs_of_neg hcast] at herror
      rw [← abs_neg]
      push_cast
      rwa [neg_sub, sub_neg_eq_add, add_comm, ← sub_neg_eq_add]
    · have hcast : (0 : ℚ) ≤ u := Int.cast_nonneg (not_lt.1 hneg)
      rw [decide_eq_false hneg, toUnits]
      rw [abs_of_nonneg hcast] at herror
      exact_mod_cast herror

section Bounded

variable {bound : ℚ} (hone : 1 ≤ bound) (hsmall : bound ≤ 2 ^ 64)

include hone hsmall

/-- A bound on values is a bound on units. -/
theorem units_bound : 2 ^ 52 ≤ bound * unitsPerOne ∧ 2 * (bound * unitsPerOne) ≤ overflowUnits := by
  have hlarge : ((2 ^ 52 : Nat) : ℚ) ≤ unitsPerOne :=
    Nat.cast_le.2 (two_pow_le_unitsPerOne (by decide))
  have hoverflow : ((2 ^ 65 * unitsPerOne : Nat) : ℚ) ≤ overflowUnits :=
    Nat.cast_le.2 (two_pow_mul_unitsPerOne_lt (by decide)).le
  rw [Nat.cast_mul] at hoverflow
  rw [Nat.cast_pow, Nat.cast_ofNat] at hlarge hoverflow
  have hlow := mul_le_mul_of_nonneg_right hone unitsPerOne_cast_pos.le
  have hhigh := mul_le_mul_of_nonneg_right hsmall unitsPerOne_cast_pos.le
  constructor <;> linarith

/-- A sum that is within the bound is finite, and off by a rounding error. -/
theorem value_add {x y : Binary64} (hx : x.isFinite = true) (hy : y.isFinite = true)
    (hbound : |x.value + y.value| ≤ bound) :
    (x + y).isFinite = true ∧ |(x + y).value - (x.value + y.value)| ≤ bound / 2 ^ 53 := by
  obtain ⟨zeroSign, hsum⟩ := add_eq_ofUnits hx hy
  obtain ⟨hlarge, hoverflow⟩ := units_bound hone hsmall
  have hunits : x.value + y.value = ((x.toUnits + y.toUnits : Int) : ℚ) / unitsPerOne := by
    rw [value, value, Int.cast_add, add_div]
  rw [hunits, abs_div, abs_of_pos unitsPerOne_cast_pos, div_le_iff₀ unitsPerOne_cast_pos] at hbound
  obtain ⟨hfinite, herror⟩ := abs_toUnits_ofUnits_sub_le zeroSign hbound hlarge hoverflow
  rw [hsum, hunits, value, ← sub_div, abs_div, abs_of_pos unitsPerOne_cast_pos,
    div_le_iff₀ unitsPerOne_cast_pos]
  exact ⟨hfinite, herror.trans_eq (by ring)⟩

/-- A difference that is within the bound is finite, and off by a rounding error. -/
theorem value_sub {x y : Binary64} (hx : x.isFinite = true) (hy : y.isFinite = true)
    (hbound : |x.value - y.value| ≤ bound) :
    (x - y).isFinite = true ∧ |(x - y).value - (x.value - y.value)| ≤ bound / 2 ^ 53 := by
  have hsum := value_add hone hsmall hx ((isFinite_neg y).trans hy)
    (by rwa [value_neg, ← sub_eq_add_neg])
  rw [value_neg, ← sub_eq_add_neg] at hsum
  exact hsum

/-- A quotient of natural numbers that is within the bound is finite, and off by a rounding error. -/
theorem value_ofNat_div_ofNat {k den : Nat} (hk : k ≤ 2 ^ 53) (hden : den ≤ 2 ^ 53) (hpos : 0 < den)
    (hbound : (k : ℚ) / den ≤ bound) :
    (ofNat k / ofNat den).isFinite = true ∧ 0 ≤ (ofNat k / ofNat den).value ∧
      |(ofNat k / ofNat den).value - k / den| ≤ bound / 2 ^ 53 := by
  obtain ⟨hlarge, hoverflow⟩ := units_bound hone hsmall
  have hunits {m : Nat} (hm : m ≤ 2 ^ 53) : (Magnitude.ofNat m).units = m * unitsPerOne :=
    units_round (onGrid_mul_unitsPerOne hm) (mul_unitsPerOne_lt hm).le
  have hfinite {m : Nat} (hm : m ≤ 2 ^ 53) : (Magnitude.ofNat m).isInfinite = false := by
    rw [Magnitude.isInfinite, hunits hm]
    exact beq_eq_false_iff_ne.2 (mul_unitsPerOne_lt hm).ne
  have hne : den * unitsPerOne ≠ 0 := Nat.mul_ne_zero hpos.ne' unitsPerOne_pos.ne'
  have hquotient : ofNat k / ofNat den =
      signed false (.round (k * unitsPerOne * unitsPerOne) (den * unitsPerOne)) := by
    show Binary64.div (signed false (.ofNat k)) (signed false (.ofNat den)) = _
    rw [Binary64.div, hfinite hk, hfinite hden, hunits hk, hunits hden, if_neg hne]
    rfl
  have hvalue : ((k * unitsPerOne * unitsPerOne : Nat) : ℚ) / (den * unitsPerOne : Nat) =
      k / den * unitsPerOne := by
    have hdenq : (den : ℚ) ≠ 0 := Nat.cast_ne_zero.2 hpos.ne'
    have hunitq := unitsPerOne_cast_pos.ne'
    push_cast
    field_simp
  obtain ⟨hround, herror⟩ := Magnitude.abs_units_round_sub_le (Nat.pos_of_ne_zero hne)
    (by rw [hvalue]; exact mul_le_mul_of_nonneg_right hbound unitsPerOne_cast_pos.le) hlarge hoverflow
  rw [hvalue] at herror
  rw [hquotient, isFinite, hround, value, toUnits]
  refine ⟨rfl, div_nonneg (Int.cast_nonneg (Int.natCast_nonneg _)) unitsPerOne_cast_pos.le, ?_⟩
  rw [div_sub' unitsPerOne_cast_pos.ne', abs_div, abs_of_pos unitsPerOne_cast_pos,
    div_le_iff₀ unitsPerOne_cast_pos, Int.cast_natCast, mul_comm (unitsPerOne : ℚ)]
  exact herror.trans_eq (by ring)

end Bounded

/-! ### The CPU tolerance -/

/-- The tolerance lies between eight and nine parts of `2 ^ -33`. -/
theorem value_tolerance_bounds :
    8 / 2 ^ 33 ≤ Resources.cpuTolerance.value ∧ Resources.cpuTolerance.value ≤ 9 / 2 ^ 33 := by
  have hlow : 8 * (unitsPerOne : Int) ≤ Resources.cpuTolerance.toUnits * 2 ^ 33 := by decide +kernel
  have hhigh : Resources.cpuTolerance.toUnits * 2 ^ 33 ≤ 9 * (unitsPerOne : Int) := by decide +kernel
  rw [value, div_le_div_iff₀ (by norm_num) unitsPerOne_cast_pos,
    div_le_div_iff₀ unitsPerOne_cast_pos (by norm_num)]
  rw [← Int.cast_le (R := ℚ)] at hlow hhigh
  push_cast at hlow hhigh
  exact ⟨hlow, hhigh⟩

end Binary64

end PodPlacement
