import PodPlacement.Proofs.Number.Error

/-! # Rounding to the nearest

Rounding a quotient gives the nearest number of 53 bits, and cutting it at infinity gives the nearest magnitude.
It depends on the quotient only: a common factor of numerator and denominator does not matter.

* `roundToEven_mul_right`, `roundSignificant_mul_right`, `Magnitude.round_mul_right` — common factors.
* `roundToEven_nearest`, `roundSignificant_nearest`, `Magnitude.round_nearest` — no whole number, no number of 53
  bits and no magnitude is nearer to the quotient.
* `Nearest`, `nearest_ofDecimal` — the double nearest to a decimal is that. -/

namespace PodPlacement

/-! ### Common factors -/

/-- A common factor does not change a rounded quotient. -/
theorem roundToEven_mul_right (num den : Nat) {c : Nat} (hc : 0 < c) :
    roundToEven (num * c) (den * c) = roundToEven num den := by
  have hdouble : 2 * (num % den * c) = 2 * (num % den) * c := (Nat.mul_assoc _ _ _).symm
  simp only [roundToEven, Nat.mul_mod_mul_right, Nat.mul_div_mul_right _ _ hc, hdouble,
    Nat.mul_lt_mul_right hc, Nat.mul_left_inj hc.ne']

/-- A common factor does not change a quotient rounded to 53 bits. -/
theorem roundSignificant_mul_right (num den : Nat) {c : Nat} (hc : 0 < c) :
    roundSignificant (num * c) (den * c) = roundSignificant num den := by
  rw [roundSignificant, roundSignificant, Nat.mul_div_mul_right _ _ hc, Nat.mul_right_comm den c,
    roundToEven_mul_right _ _ hc]

/-- A common factor does not change a magnitude. -/
theorem Magnitude.round_mul_right (num den : Nat) {c : Nat} (hc : 0 < c) :
    Magnitude.round (num * c) (den * c) = Magnitude.round num den := by
  unfold Magnitude.round
  simp only [roundSignificant_mul_right num den hc]

/-- A decimal with places is a quotient by a power of ten. -/
theorem Magnitude.ofDecimal_neg (digits places : Nat) :
    Magnitude.ofDecimal digits (-places) = .round (digits * unitsPerOne) (10 ^ places) := by
  cases places with
  | zero =>
    show Magnitude.round (digits * 10 ^ 0 * unitsPerOne) 1 = _
    rw [Nat.pow_zero, Nat.mul_one]
  | succ e => rfl

/-! ### The nearest point of the grid -/

/-- No whole number is nearer to a quotient than the rounded one. -/
theorem roundToEven_nearest (num : Nat) {den : Nat} (hden : 0 < den) (k : Nat) :
    |(roundToEven num den : ℚ) - num / den| ≤ |(k : ℚ) - num / den| := by
  by_cases heq : k = roundToEven num den
  · rw [heq]
  · -- The rounded one is off by one half at most, and another one differs from it by one at least.
    have hhalf := abs_roundToEven_sub_le num hden
    have hone : (1 : ℚ) ≤ |(k : ℚ) - roundToEven num den| := by
      have hne : (k : Int) - roundToEven num den ≠ 0 := by omega
      exact_mod_cast Int.one_le_abs hne
    have htriangle := abs_sub_le (k : ℚ) (num / den) (roundToEven num den)
    rw [abs_sub_comm ((num : ℚ) / den)] at htriangle
    linarith

/-- The step of a quotient divides every number of 53 bits from its leading bit on. -/
theorem step_dvd {num den g : Nat} (hg : OnGrid g) (hlead : 2 ^ (num / den).log2 ≤ g) :
    2 ^ ((num / den).log2 - 52) ∣ g := by
  have hne : g ≠ 0 := (Nat.lt_of_lt_of_le (Nat.two_pow_pos _) hlead).ne'
  have hlog : (num / den).log2 ≤ g.log2 := (Nat.le_log2 hne).2 hlead
  exact (Nat.pow_dvd_pow 2 (Nat.sub_le_sub_right hlog 52)).trans hg

/-- No multiple of the step is nearer to a quotient than the one rounded to 53 bits. -/
theorem roundSignificant_nearest_mul (num : Nat) {den : Nat} (hden : 0 < den) (k : Nat) :
    |(roundSignificant num den : ℚ) - num / den| ≤
      |((k * 2 ^ ((num / den).log2 - 52) : Nat) : ℚ) - num / den| := by
  rw [roundSignificant]
  generalize hs : 2 ^ ((num / den).log2 - 52) = step
  have hpos : 0 < step := by rw [← hs]; exact Nat.two_pow_pos _
  have hposq : (0 : ℚ) < step := Nat.cast_pos.2 hpos
  have hscale (j : Nat) : ((j * step : Nat) : ℚ) - num / den =
      ((j : ℚ) - num / (den * step : Nat)) * step := by
    push_cast
    field_simp
  rw [hscale, hscale, abs_mul, abs_mul]
  exact mul_le_mul_of_nonneg_right (roundToEven_nearest num (Nat.mul_pos hden hpos) k) (abs_nonneg _)

/-- No number of 53 bits is nearer to a quotient than the rounded one. -/
theorem roundSignificant_nearest (num : Nat) {den g : Nat} (hden : 0 < den) (hg : OnGrid g) :
    |(roundSignificant num den : ℚ) - num / den| ≤ |(g : ℚ) - num / den| := by
  rcases Nat.lt_or_ge g (2 ^ (num / den).log2) with hlt | hge
  · rcases Nat.eq_zero_or_pos (num / den) with hzero | hpos
    · -- Below one the only number in front of the leading bit is zero.
      have hg0 : g = 0 := by
        rw [hzero] at hlt
        simpa using hlt
      have hnearest := roundSignificant_nearest_mul num hden 0
      rw [hg0]
      simpa using hnearest
    · -- The leading bit alone is a multiple of the step between the number and the quotient.
      have hlead := roundSignificant_nearest_mul num hden
        (2 ^ (num / den).log2 / 2 ^ ((num / den).log2 - 52))
      rw [Nat.div_mul_cancel (Nat.pow_dvd_pow 2 (Nat.sub_le _ _))] at hlead
      have hquotient : ((2 ^ (num / den).log2 : Nat) : ℚ) ≤ num / den :=
        (Nat.cast_le.2 (Nat.log2_self_le hpos.ne')).trans Nat.cast_div_le
      have hbelow : (g : ℚ) ≤ (2 ^ (num / den).log2 : Nat) := Nat.cast_le.2 hlt.le
      refine hlead.trans ?_
      rw [abs_of_nonpos (sub_nonpos.2 hquotient), abs_of_nonpos (sub_nonpos.2 (hbelow.trans hquotient))]
      linarith
  · obtain ⟨k, rfl⟩ := step_dvd hg hge
    rw [Nat.mul_comm]
    exact roundSignificant_nearest_mul num hden k

/-- No magnitude is nearer to a quotient than the rounded one. -/
theorem Magnitude.round_nearest (num : Nat) {den : Nat} (hden : 0 < den) (m : Magnitude) :
    |((Magnitude.round num den).units : ℚ) - num / den| ≤ |(m.units : ℚ) - num / den| := by
  rcases Nat.le_total (roundSignificant num den) overflowUnits with hle | hge
  · have hunits : (Magnitude.round num den).units = roundSignificant num den := Nat.min_eq_left hle
    rw [hunits]
    exact roundSignificant_nearest num hden m.onGrid
  · -- Infinity is a point of the grid, so a quotient that is rounded beyond it is not below it.
    have hunits : (Magnitude.round num den).units = overflowUnits := Nat.min_eq_right hge
    have hgeq : (overflowUnits : ℚ) ≤ roundSignificant num den := Nat.cast_le.2 hge
    have hmle : (m.units : ℚ) ≤ overflowUnits := Nat.cast_le.2 m.le_overflow
    have hnearest := roundSignificant_nearest num hden onGrid_overflowUnits
    rw [hunits]
    rcases le_total (overflowUnits : ℚ) (num / den) with habove | hbelow
    · rw [abs_of_nonpos (sub_nonpos.2 habove), abs_of_nonpos (sub_nonpos.2 (hmle.trans habove))]
      linarith
    · have heq : (roundSignificant num den : ℚ) = overflowUnits := by
        rw [abs_of_nonneg (sub_nonneg.2 (hbelow.trans hgeq)), abs_of_nonneg (sub_nonneg.2 hbelow)] at hnearest
        linarith
      rw [← heq]
      exact roundSignificant_nearest num hden m.onGrid

namespace Binary64

/-- No double is nearer to the number; infinity stands for the power of two at which rounding overflows. -/
def Nearest (x : Binary64) (q : ℚ) : Prop :=
  x.isNaN = false ∧ ∀ y : Binary64, y.isNaN = false → |x.value - q| ≤ |y.value - q|

/-- A rounded quotient of units is the double nearest to it. -/
theorem nearest_round (num : Nat) {den : Nat} (hden : 0 < den) :
    Nearest (signed false (.round num den)) (num / den / unitsPerOne) := by
  refine ⟨rfl, fun y hy => ?_⟩
  have hunits {x : Binary64} : |x.value - num / den / unitsPerOne| =
      |(x.toUnits : ℚ) - num / den| / unitsPerOne := by
    rw [value, ← sub_div, abs_div, abs_of_pos unitsPerOne_cast_pos]
  rw [hunits, hunits, div_le_div_iff_of_pos_right unitsPerOne_cast_pos]
  cases y with
  | nan => cases hy
  | signed s m =>
    cases s with
    | false => exact Magnitude.round_nearest num hden m
    | true =>
      -- Zero lies between a negative number and the quotient.
      have hzero := Magnitude.round_nearest num hden .zero
      have hquotient : (0 : ℚ) ≤ num / den := by positivity
      have hunits : (0 : ℚ) ≤ m.units := Nat.cast_nonneg _
      have hzero' : ((Magnitude.zero.units : Nat) : ℚ) = 0 := Nat.cast_zero
      refine hzero.trans ?_
      rw [hzero', zero_sub, abs_neg, abs_of_nonneg hquotient, toUnits]
      push_cast
      rw [abs_of_nonpos (by linarith)]
      linarith

/-- The double of a decimal is the one nearest to it. -/
theorem nearest_ofDecimal (digits : Nat) (exponent : Int) :
    Nearest (ofDecimal digits exponent) (digits * 10 ^ exponent) := by
  have hpos := unitsPerOne_cast_pos.ne'
  cases exponent with
  | ofNat e =>
    have hvalue : (digits : ℚ) * 10 ^ (Int.ofNat e) =
        (digits * 10 ^ e * unitsPerOne : Nat) / (1 : Nat) / unitsPerOne := by
      push_cast
      rw [Int.ofNat_eq_natCast, zpow_natCast]
      field_simp
    rw [hvalue]
    exact nearest_round _ Nat.one_pos
  | negSucc e =>
    have hvalue : (digits : ℚ) * 10 ^ (Int.negSucc e) =
        (digits * unitsPerOne : Nat) / (10 ^ (e + 1) : Nat) / unitsPerOne := by
      push_cast
      rw [zpow_negSucc]
      field_simp
    rw [hvalue]
    exact nearest_round _ (Nat.pow_pos (by decide))

end Binary64

end PodPlacement
