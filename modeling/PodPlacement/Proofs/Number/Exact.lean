import Mathlib.Algebra.Order.Ring.Nat
import PodPlacement.Proofs.Number.Order
import PodPlacement.Resources

/-! # Exact arithmetic on whole numbers

Rounding leaves the grid of 53-bit numbers alone and never crosses a point of it. So sums and
differences of whole numbers are exact as long as they stay below `2 ^ 53`, and the CPU tolerance is too
small to turn a comparison of whole numbers around below `2 ^ 52`.

* `roundSignificant_of_onGrid`, `roundSignificant_le`, `le_roundSignificant` — rounding and the grid.
* `IsCount x k` — the double `x` is the whole number `k`.
* `IsCount.add`, `IsCount.sub`, `IsCount.add_tolerance_lt_iff` — what the ledgers do with counts. -/

namespace PodPlacement

/-! ### Rounding and the grid -/

/-- A quotient without remainder is not rounded. -/
theorem roundToEven_of_mod_eq_zero {num den : Nat} (hden : 0 < den) (h : num % den = 0) :
    roundToEven num den = num / den := by
  rw [roundToEven, h, if_pos (.inl (by omega))]

/-- A number of 53 bits is its own rounding. -/
theorem roundSignificant_of_onGrid {n : Nat} (h : OnGrid n) : roundSignificant n 1 = n := by
  have hmod : n % 2 ^ (n.log2 - 52) = 0 := Nat.mod_eq_zero_of_dvd h
  rw [roundSignificant, Nat.div_one, Nat.one_mul]
  rw [roundToEven_of_mod_eq_zero (Nat.two_pow_pos _) hmod, Nat.div_mul_cancel h]

/-- A rounded quotient is not above a whole number that the quotient is not above. -/
theorem roundToEven_le {num den k : Nat} (hden : 0 < den) (h : num ≤ k * den) :
    roundToEven num den ≤ k := by
  have hdiv : num / den ≤ k := Nat.div_le_of_le_mul (by rwa [Nat.mul_comm])
  rw [roundToEven]
  split
  · exact hdiv
  · rename_i hup
    -- Rounding went up, so there is a remainder and the quotient is strictly below `k`.
    have hrem : 0 < num % den := by
      rcases Nat.eq_zero_or_pos (num % den) with h0 | hpos
      · rw [h0] at hup; omega
      · exact hpos
    have hsum := Nat.div_add_mod num den
    have hlt : num / den < k := by
      rcases Nat.lt_or_eq_of_le hdiv with hlt | heq
      · exact hlt
      · rw [heq, Nat.mul_comm] at hsum; omega
    omega

/-- A larger number has a step that is at least as large. -/
theorem step_dvd_step {a b : Nat} (h : a ≤ b) : 2 ^ (a.log2 - 52) ∣ 2 ^ (b.log2 - 52) := by
  refine Nat.pow_dvd_pow 2 (Nat.sub_le_sub_right ?_ 52)
  rcases Nat.eq_zero_or_pos a with rfl | ha
  · simp
  · rw [Nat.le_log2 (by omega)]
    exact (Nat.log2_self_le (by omega)).trans h

/-- Rounding does not go beyond a point of the grid above. -/
theorem roundSignificant_le {a b : Nat} (hb : OnGrid b) (h : a ≤ b) : roundSignificant a 1 ≤ b := by
  obtain ⟨k, hk⟩ := Nat.dvd_trans (step_dvd_step h) hb
  rw [roundSignificant, Nat.div_one, Nat.one_mul]
  have hround : roundToEven a (2 ^ (a.log2 - 52)) ≤ k :=
    roundToEven_le (Nat.two_pow_pos _) (by rw [Nat.mul_comm, ← hk]; exact h)
  calc roundToEven a (2 ^ (a.log2 - 52)) * 2 ^ (a.log2 - 52)
      ≤ k * 2 ^ (a.log2 - 52) := Nat.mul_le_mul_right _ hround
    _ = b := by rw [hk, Nat.mul_comm]

/-- Rounding does not go beyond a point of the grid below. -/
theorem le_roundSignificant {a b : Nat} (ha : OnGrid a) (h : a ≤ b) : a ≤ roundSignificant b 1 := by
  rw [roundSignificant, Nat.div_one, Nat.one_mul]
  have hfloor : b / 2 ^ (b.log2 - 52) * 2 ^ (b.log2 - 52) ≤
      roundToEven b (2 ^ (b.log2 - 52)) * 2 ^ (b.log2 - 52) :=
    Nat.mul_le_mul_right _ (div_le_roundToEven _ _)
  refine le_trans ?_ hfloor
  rcases Nat.eq_zero_or_pos a with rfl | hapos
  · exact Nat.zero_le _
  · rcases Nat.lt_or_ge a (2 ^ b.log2) with hlt | hge
    · -- The leading bit of `b` alone is a multiple of its step.
      have hlead : 2 ^ b.log2 / 2 ^ (b.log2 - 52) * 2 ^ (b.log2 - 52) = 2 ^ b.log2 :=
        Nat.div_mul_cancel (Nat.pow_dvd_pow 2 (Nat.sub_le _ _))
      have hb : 2 ^ b.log2 ≤ b := Nat.log2_self_le (by omega)
      calc a ≤ 2 ^ b.log2 := hlt.le
        _ = 2 ^ b.log2 / 2 ^ (b.log2 - 52) * 2 ^ (b.log2 - 52) := hlead.symm
        _ ≤ b / 2 ^ (b.log2 - 52) * 2 ^ (b.log2 - 52) :=
          Nat.mul_le_mul_right _ (Nat.div_le_div_right hb)
    · have hlog : b.log2 ≤ a.log2 := (Nat.le_log2 (by omega)).2 hge
      have hdvd : 2 ^ (b.log2 - 52) ∣ a :=
        (Nat.pow_dvd_pow 2 (Nat.sub_le_sub_right hlog 52)).trans ha
      calc a = a / 2 ^ (b.log2 - 52) * 2 ^ (b.log2 - 52) := (Nat.div_mul_cancel hdvd).symm
        _ ≤ b / 2 ^ (b.log2 - 52) * 2 ^ (b.log2 - 52) :=
          Nat.mul_le_mul_right _ (Nat.div_le_div_right h)

namespace Binary64

/-! ### Sums on the grid -/

/-- A finite double is a sign and a magnitude below infinity. -/
theorem isFinite_iff {x : Binary64} :
    x.isFinite = true ↔ ∃ s m, x = signed s m ∧ m.isInfinite = false := by
  cases x with
  | nan => simp [isFinite]
  | signed s m => exact ⟨fun h => ⟨s, m, rfl, by simpa [isFinite] using h⟩, by
      rintro ⟨t, n, he, hn⟩
      rw [he, isFinite, hn]
      rfl⟩

/-- Below infinity a magnitude on the grid is kept. -/
theorem units_round {n : Nat} (hgrid : OnGrid n) (hle : n ≤ overflowUnits) :
    (Magnitude.round n 1).units = n := by
  show min (roundSignificant n 1) overflowUnits = n
  rw [roundSignificant_of_onGrid hgrid, Nat.min_eq_left hle]

/-- The sum of two finite doubles is the rounded sum of their units. -/
theorem add_eq_ofUnits {x y : Binary64} (hx : x.isFinite = true) (hy : y.isFinite = true) :
    ∃ zeroSign, x + y = ofUnits zeroSign (x.toUnits + y.toUnits) := by
  obtain ⟨s, m, rfl, hm⟩ := isFinite_iff.1 hx
  obtain ⟨t, n, rfl, hn⟩ := isFinite_iff.1 hy
  refine ⟨s && t, ?_⟩
  show Binary64.add _ _ = _
  rw [Binary64.add, hm, hn]
  rfl

/-- Both zeros are finite. -/
theorem isFinite_signedZero (negative : Bool) : (signedZero negative).isFinite = true := by
  have hne : (0 : Nat) ≠ overflowUnits := (Nat.two_pow_pos overflowExponent).ne
  rw [signedZero, isFinite, Magnitude.isInfinite, Magnitude.zero, beq_eq_false_iff_ne.2 hne]
  rfl

/-- Neither zero has units. -/
theorem toUnits_signedZero (negative : Bool) : (signedZero negative).toUnits = 0 := by
  cases negative <;> rfl

/-- A number of units on the grid is kept. -/
theorem toUnits_ofUnits {u : Int} (zeroSign : Bool) (hgrid : OnGrid u.natAbs)
    (hlt : u.natAbs < overflowUnits) :
    (ofUnits zeroSign u).isFinite = true ∧ (ofUnits zeroSign u).toUnits = u := by
  rw [ofUnits]
  split
  · rename_i h0
    rw [h0]
    exact ⟨isFinite_signedZero zeroSign, toUnits_signedZero zeroSign⟩
  · have hunits := units_round hgrid hlt.le
    refine ⟨?_, ?_⟩
    · rw [isFinite, Magnitude.isInfinite, hunits]
      simpa using hlt.ne
    · by_cases hneg : u < 0
      · rw [decide_eq_true hneg, toUnits, hunits]
        omega
      · rw [decide_eq_false hneg, toUnits, hunits]
        omega

/-- A number of units is a number. -/
theorem isNaN_ofUnits (zeroSign : Bool) (u : Int) : (ofUnits zeroSign u).isNaN = false := by
  rw [ofUnits]
  split <;> rfl

/-- Adding a finite double to a number gives a number. -/
theorem isNaN_add_of_isFinite {x y : Binary64} (hx : x.isNaN = false) (hy : y.isFinite = true) :
    (x + y).isNaN = false := by
  obtain ⟨t, n, rfl, hn⟩ := isFinite_iff.1 hy
  cases x with
  | nan => cases hx
  | signed s m =>
    show (Binary64.add _ _).isNaN = false
    rw [Binary64.add, hn, Bool.false_and]
    by_cases hm : m.isInfinite = true
    · rw [if_pos hm, if_neg Bool.false_ne_true]
      rfl
    · rw [if_neg hm, if_neg Bool.false_ne_true]
      exact isNaN_ofUnits _ _

/-- The opposite of a finite double is finite. -/
@[simp] theorem isFinite_neg (x : Binary64) : (-x).isFinite = x.isFinite := by cases x <;> rfl

/-- The opposite of a double has the opposite number of units. -/
@[simp] theorem toUnits_neg (x : Binary64) : (-x).toUnits = -x.toUnits := by
  cases x with
  | nan => rfl
  | signed s m =>
    cases s
    · rfl
    · exact (Int.neg_neg _).symm

/-! ### Whole numbers -/

/-- The double is the whole number `k`. -/
def IsCount (x : Binary64) (k : Nat) : Prop := x.isFinite = true ∧ x.toUnits = (k * unitsPerOne : Nat)

/-- The number of units in one half. -/
def unitsPerHalf : Nat := 2 ^ 1073

/-- One half, one and infinity are powers of two. -/
theorem exists_exponent :
    ∃ e, unitsPerHalf = 2 ^ e ∧ unitsPerOne = 2 ^ (e + 1) ∧ overflowExponent = e + 1025 := by
  have hsucc : 1074 = 1073 + 1 := rfl
  exact ⟨1073, by rw [unitsPerHalf], by rw [unitsPerOne, hsucc], rfl⟩

/-- One is two halves. -/
theorem unitsPerOne_eq : unitsPerOne = 2 * unitsPerHalf := by
  obtain ⟨e, hhalf, hone, -⟩ := exists_exponent
  rw [hone, hhalf, Nat.pow_succ']

/-- One half is made of units. -/
theorem unitsPerHalf_pos : 0 < unitsPerHalf := by
  obtain ⟨e, hhalf, -⟩ := exists_exponent
  rw [hhalf]
  exact Nat.two_pow_pos e

/-- One is made of units. -/
theorem unitsPerOne_pos : 0 < unitsPerOne := by
  rw [unitsPerOne_eq]
  exact Nat.mul_pos Nat.two_pos unitsPerHalf_pos

/-- A whole number of 53 bits lies on the grid. -/
theorem onGrid_mul_unitsPerOne {k : Nat} (hk : k ≤ 2 ^ 53) : OnGrid (k * unitsPerOne) := by
  obtain ⟨e, -, hone, -⟩ := exists_exponent
  rw [hone]
  exact onGrid_mul_two_pow hk

/-- A number of halves of 53 bits lies on the grid. -/
theorem onGrid_mul_unitsPerHalf {k : Nat} (hk : k ≤ 2 ^ 53) : OnGrid (k * unitsPerHalf) := by
  obtain ⟨e, hhalf, -⟩ := exists_exponent
  rw [hhalf]
  exact onGrid_mul_two_pow hk

/-- Powers of two below `2 ^ 1024` are finite. -/
theorem two_pow_mul_unitsPerOne_lt {e : Nat} (he : e < 1024) : 2 ^ e * unitsPerOne < overflowUnits := by
  obtain ⟨d, -, hone, hoverflow⟩ := exists_exponent
  rw [hone, overflowUnits, hoverflow, ← Nat.pow_add]
  exact Nat.pow_lt_pow_right Nat.one_lt_two (by omega)

/-- One is at least `2 ^ 1073` units. -/
theorem two_pow_le_unitsPerOne {e : Nat} (he : e < 1074) : 2 ^ e ≤ unitsPerOne := by
  obtain ⟨d, -, hone, hoverflow⟩ := exists_exponent
  rw [overflowExponent] at hoverflow
  rw [hone]
  exact Nat.pow_le_pow_right Nat.two_pos (by omega)

/-- A whole number of 53 bits is finite. -/
theorem mul_unitsPerOne_lt {k : Nat} (hk : k ≤ 2 ^ 53) : k * unitsPerOne < overflowUnits :=
  (Nat.mul_le_mul_right unitsPerOne hk).trans_lt (two_pow_mul_unitsPerOne_lt (by decide))

/-- The units of a whole number of 53 bits. -/
theorem units_ofNat {k : Nat} (hk : k ≤ 2 ^ 53) : (Magnitude.ofNat k).units = k * unitsPerOne :=
  units_round (onGrid_mul_unitsPerOne hk) (mul_unitsPerOne_lt hk).le

/-- Such a number is not infinite. -/
theorem isInfinite_ofNat {k : Nat} (hk : k ≤ 2 ^ 53) : (Magnitude.ofNat k).isInfinite = false := by
  rw [Magnitude.isInfinite, units_ofNat hk]
  exact beq_eq_false_iff_ne.2 (mul_unitsPerOne_lt hk).ne

/-- The doubles of natural numbers up to `2 ^ 53` are exact. -/
theorem isCount_ofNat {k : Nat} (hk : k ≤ 2 ^ 53) : IsCount (ofNat k) k := by
  refine ⟨?_, ?_⟩
  · rw [ofNat, isFinite, isInfinite_ofNat hk]
    rfl
  · rw [ofNat, toUnits, units_ofNat hk]

/-- Zero is finite. -/
theorem isFinite_zero : (0 : Binary64).isFinite = true := (isCount_ofNat (Nat.zero_le _)).1

namespace IsCount

variable {x y : Binary64} {a b : Nat}

/-- A whole number is a number. -/
theorem isNaN_eq_false (h : IsCount x a) : x.isNaN = false := isNaN_of_isFinite h.1

/-- The order of doubles that are whole numbers is that of the numbers. -/
theorem le_iff_le (hx : IsCount x a) (hy : IsCount y b) : x ≤ y ↔ a ≤ b := by
  rw [le_iff_toUnits_le hx.isNaN_eq_false hy.isNaN_eq_false, hx.2, hy.2, Int.ofNat_le]
  exact Nat.mul_le_mul_right_iff unitsPerOne_pos

/-- Sums of whole numbers are exact. -/
theorem add (hx : IsCount x a) (hy : IsCount y b) (hab : a + b ≤ 2 ^ 53) : IsCount (x + y) (a + b) := by
  obtain ⟨zeroSign, hsum⟩ := add_eq_ofUnits hx.1 hy.1
  have hu : x.toUnits + y.toUnits = ((a + b) * unitsPerOne : Nat) := by
    rw [hx.2, hy.2, Nat.add_mul, Int.natCast_add]
  rw [hsum, hu]
  exact toUnits_ofUnits zeroSign (by rw [Int.natAbs_natCast]; exact onGrid_mul_unitsPerOne hab)
    (by rw [Int.natAbs_natCast]; exact mul_unitsPerOne_lt hab)

/-- Differences of whole numbers are exact, cut at zero or not. -/
theorem sub (hx : IsCount x a) (hy : IsCount y b) (hba : b ≤ a) (ha : a ≤ 2 ^ 53) :
    IsCount ((x - y).maxNum 0) (a - b) := by
  obtain ⟨zeroSign, hsum⟩ := add_eq_ofUnits (y := -y) hx.1 (by rw [isFinite_neg]; exact hy.1)
  have hu : x.toUnits + (-y).toUnits = ((a - b) * unitsPerOne : Nat) := by
    have hmul := Nat.mul_le_mul_right unitsPerOne hba
    rw [toUnits_neg, hx.2, hy.2, Nat.sub_mul]
    omega
  have hdiff : IsCount (x - y) (a - b) := by
    show IsCount (x + -y) (a - b)
    rw [hsum, hu]
    exact toUnits_ofUnits zeroSign
      (by rw [Int.natAbs_natCast]; exact onGrid_mul_unitsPerOne (by omega))
      (by rw [Int.natAbs_natCast]; exact mul_unitsPerOne_lt (by omega))
  rcases maxNum_eq_or (x - y) 0 with h | h
  · rw [h]; exact hdiff
  · -- Zero is the larger one only if it is numerically equal.
    have hzero : (x - y).toUnits ≤ 0 := by
      have hle := le_maxNum_left hdiff.isNaN_eq_false 0
      rw [h, le_iff, toUnits_zero] at hle
      exact hle.2.2
    refine ⟨by rw [h]; exact isFinite_zero, ?_⟩
    rw [h, toUnits_zero]
    rw [hdiff.2] at hzero
    omega

end IsCount

/-! ### The CPU tolerance -/

/-- The tolerance is small against one. -/
theorem tolerance_small : Resources.cpuTolerance.isFinite = true ∧
    0 ≤ Resources.cpuTolerance.toUnits ∧ Resources.cpuTolerance.toUnits ≤ unitsPerHalf := by
  refine ⟨?_, ?_, ?_⟩ <;> decide +kernel

/-- Adding the tolerance to a whole number does not reach the next one. -/
theorem IsCount.toUnits_add_tolerance {x : Binary64} {a : Nat} (hx : IsCount x a) (ha : a < 2 ^ 52) :
    (x + Resources.cpuTolerance).isNaN = false ∧
      ((a * unitsPerOne : Nat) : Int) ≤ (x + Resources.cpuTolerance).toUnits ∧
      (x + Resources.cpuTolerance).toUnits ≤ ((2 * a + 1) * unitsPerHalf : Nat) := by
  obtain ⟨hfin, hpos, hsmall⟩ := tolerance_small
  obtain ⟨zeroSign, hsum⟩ := add_eq_ofUnits hx.1 hfin
  obtain ⟨τ, hτ⟩ := Int.eq_ofNat_of_zero_le hpos
  have hu : x.toUnits + Resources.cpuTolerance.toUnits = ((a * unitsPerOne + τ : Nat) : Int) := by
    rw [hx.2, hτ, Int.natCast_add]
  rw [hsum, hu, ofUnits]
  split
  · rename_i h0
    have hza : a * unitsPerOne = 0 := by omega
    rw [hza]
    rw [toUnits_signedZero]
    exact ⟨rfl, Int.le_refl _, Int.natCast_nonneg _⟩
  · rw [decide_eq_false (by omega), Int.natAbs_natCast]
    refine ⟨rfl, ?_, ?_⟩
    · rw [toUnits, Int.ofNat_le]
      exact le_min (le_roundSignificant (onGrid_mul_unitsPerOne (by omega)) (by omega))
        (mul_unitsPerOne_lt (by omega)).le
    · rw [toUnits, Int.ofNat_le]
      refine (Nat.min_le_left _ _).trans (roundSignificant_le (onGrid_mul_unitsPerHalf (by omega)) ?_)
      rw [hτ, Int.ofNat_le] at hsmall
      rw [unitsPerOne_eq, Nat.add_mul, Nat.mul_comm 2 a, Nat.mul_assoc]
      omega

/-- With the tolerance or without it, whole numbers compare alike. -/
theorem IsCount.add_tolerance_lt_iff {x y : Binary64} {a b : Nat} (hx : IsCount x a)
    (hy : IsCount y b) (ha : a < 2 ^ 52) : x + Resources.cpuTolerance < y ↔ a < b := by
  obtain ⟨hnan, hlow, hhigh⟩ := hx.toUnits_add_tolerance ha
  rw [lt_iff, hnan, hy.isNaN_eq_false, hy.2]
  simp only [true_and]
  constructor
  · intro h
    exact Nat.lt_of_mul_lt_mul_right (Int.ofNat_lt.1 (lt_of_le_of_lt hlow h))
  · intro h
    refine lt_of_le_of_lt hhigh (Int.ofNat_lt.2 ?_)
    calc (2 * a + 1) * unitsPerHalf
        < (2 * a + 2) * unitsPerHalf :=
          Nat.mul_lt_mul_of_pos_right (by omega) unitsPerHalf_pos
      _ = (a + 1) * unitsPerOne := by rw [unitsPerOne_eq, ← Nat.mul_assoc]; congr 1; omega
      _ ≤ b * unitsPerOne := Nat.mul_le_mul_right _ h

end Binary64

end PodPlacement
