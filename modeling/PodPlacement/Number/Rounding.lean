/-! # Rounding a quotient

`roundToEven` rounds a quotient of natural numbers to the nearest whole number, a half going to the
even neighbour. `roundSignificant` keeps the 53 leading bits of a quotient in the same way. Both are
exact: nothing is rounded before the last step. -/

-- A power with a natural exponent is the built-in one, whatever else is in scope.
attribute [default_instance 20000, instance (2000)] instPowNat

namespace PodPlacement

/-- The whole number nearest to `num / den`; of two equally near ones the even one. -/
def roundToEven (num den : Nat) : Nat :=
  if 2 * (num % den) < den ∨ (2 * (num % den) = den ∧ num / den % 2 = 0) then num / den
  else num / den + 1

/-- Rounding to even never falls below the integer quotient. -/
theorem div_le_roundToEven (num den : Nat) : num / den ≤ roundToEven num den := by
  unfold roundToEven
  split <;> omega

/-- Rounding to even exceeds the integer quotient by at most one. -/
theorem roundToEven_le_succ (num den : Nat) : roundToEven num den ≤ num / den + 1 := by
  unfold roundToEven
  split <;> omega

/-- A number has at most 53 significant bits: it is a multiple of the step between its neighbours. -/
def OnGrid (n : Nat) : Prop := 2 ^ (n.log2 - 52) ∣ n

instance (n : Nat) : Decidable (OnGrid n) := inferInstanceAs (Decidable (_ ∣ _))

/-- A 53-bit number times a power of two lies on the grid. -/
theorem onGrid_mul_two_pow {q e : Nat} (hq : q ≤ 2 ^ 53) : OnGrid (q * 2 ^ e) := by
  unfold OnGrid
  rcases Nat.eq_zero_or_pos q with rfl | hpos
  · simp
  · have hne : q * 2 ^ e ≠ 0 := Nat.mul_ne_zero (by omega) (by simp)
    rcases Nat.lt_or_ge q (2 ^ 53) with hlt | hge
    · have hlog : (q * 2 ^ e).log2 < 53 + e := by
        rw [Nat.log2_lt hne, Nat.pow_add]
        exact Nat.mul_lt_mul_of_pos_right hlt (Nat.two_pow_pos e)
      exact Nat.dvd_trans (Nat.pow_dvd_pow 2 (by omega)) (Nat.dvd_mul_left _ _)
    · have hq' : q = 2 ^ 53 := Nat.le_antisymm hq hge
      rw [hq', ← Nat.pow_add, Nat.log2_two_pow]
      exact Nat.pow_dvd_pow 2 (by omega)

/-- A power of two lies on the grid. -/
theorem onGrid_two_pow (e : Nat) : OnGrid (2 ^ e) := by
  have h := onGrid_mul_two_pow (q := 1) (e := e) (by decide)
  rwa [Nat.one_mul] at h

/-- `num / den` rounded to 53 significant bits. -/
def roundSignificant (num den : Nat) : Nat :=
  let step := 2 ^ ((num / den).log2 - 52)
  roundToEven num (den * step) * step

/-- The rounded quotient has at most 53 significant bits. -/
theorem onGrid_roundSignificant (num den : Nat) : OnGrid (roundSignificant num den) := by
  refine onGrid_mul_two_pow ?_
  have hlt : num / (den * 2 ^ ((num / den).log2 - 52)) < 2 ^ 53 := by
    rw [← Nat.div_div_eq_div_mul, Nat.div_lt_iff_lt_mul (Nat.two_pow_pos _), ← Nat.pow_add]
    exact Nat.lt_of_lt_of_le Nat.lt_log2_self (Nat.pow_le_pow_right (by decide) (by omega))
  have := roundToEven_le_succ num (den * 2 ^ ((num / den).log2 - 52))
  omega

end PodPlacement
