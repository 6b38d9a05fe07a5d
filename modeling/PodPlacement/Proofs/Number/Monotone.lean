import PodPlacement.Proofs.Number.Exact

/-! # Rounding keeps the order

Rounding a larger number never gives a smaller one. So adding the same amount to two doubles keeps their
order, and what is not negative stays so under addition.

* `roundToEven_mono`, `roundSignificant_mono` — rounding is monotone.
* `add_le_add_right`, `add_le_add_of_nonneg`, `add_nonneg`, `le_add_right` — what follows for sums.
* `maxNum_sub_zero_le` — taking an amount away, down to zero at most, does not raise what there is. -/

namespace PodPlacement

/-! ### Rounding -/

/-- Of two quotients by the same number the larger one is not rounded to less. -/
theorem roundToEven_mono {a b den : Nat} (h : a ≤ b) : roundToEven a den ≤ roundToEven b den := by
  rcases Nat.lt_or_eq_of_le (Nat.div_le_div_right (c := den) h) with hlt | heq
  · calc roundToEven a den ≤ a / den + 1 := roundToEven_le_succ a den
      _ ≤ b / den := hlt
      _ ≤ roundToEven b den := div_le_roundToEven b den
  · -- With one integer part, the remainders decide.
    have ha := Nat.div_add_mod a den
    have hb := Nat.div_add_mod b den
    rw [heq] at ha
    unfold roundToEven
    rw [heq]
    split <;> split <;> omega

/-- A larger number is not rounded to less. -/
theorem roundSignificant_mono {a b : Nat} (h : a ≤ b) : roundSignificant a 1 ≤ roundSignificant b 1 := by
  rcases Nat.eq_zero_or_pos a with rfl | ha
  · exact (roundSignificant_le (b := 0) (by decide) (Nat.le_refl 0)).trans (Nat.zero_le _)
  have hlog : a.log2 ≤ b.log2 := (Nat.le_log2 (by omega)).2 ((Nat.log2_self_le (by omega)).trans h)
  rcases Nat.lt_or_eq_of_le hlog with hlt | heq
  · -- The leading bit of the larger number lies between the two.
    have hbelow : a ≤ 2 ^ b.log2 := ((Nat.log2_lt (by omega)).1 hlt).le
    have habove : 2 ^ b.log2 ≤ b := Nat.log2_self_le (by omega)
    exact (roundSignificant_le (onGrid_two_pow _) hbelow).trans
      (le_roundSignificant (onGrid_two_pow _) habove)
  · unfold roundSignificant
    rw [Nat.div_one, Nat.div_one, heq]
    exact Nat.mul_le_mul_right _ (roundToEven_mono h)

namespace Magnitude

/-- A larger number of units is not rounded to a smaller magnitude. -/
theorem units_round_mono {a b : Nat} (h : a ≤ b) : (round a 1).units ≤ (round b 1).units :=
  min_le_min_right _ (roundSignificant_mono h)

end Magnitude

namespace Binary64

/-- The units of the double nearest to a number of units: the sign is kept. -/
theorem toUnits_ofUnits_eq (zeroSign : Bool) (u : Int) : (ofUnits zeroSign u).toUnits =
    if u < 0 then -((Magnitude.round u.natAbs 1).units : Int) else (Magnitude.round u.natAbs 1).units := by
  rw [ofUnits]
  by_cases hzero : u = 0
  · have hround : (Magnitude.round 0 1).units = 0 := units_round (Nat.dvd_zero _) (Nat.zero_le _)
    rw [if_pos hzero, toUnits_signedZero, hzero, if_neg (Int.lt_irrefl 0), Int.natAbs_zero, hround]
    rfl
  · rw [if_neg hzero]
    by_cases hneg : u < 0
    · rw [decide_eq_true hneg, if_pos hneg]
      rfl
    · rw [decide_eq_false hneg, if_neg hneg]
      rfl

/-- The double nearest to a larger number of units is not smaller. -/
theorem toUnits_ofUnits_mono {u v : Int} (s t : Bool) (h : u ≤ v) :
    (ofUnits s u).toUnits ≤ (ofUnits t v).toUnits := by
  rw [toUnits_ofUnits_eq, toUnits_ofUnits_eq]
  by_cases hu : u < 0
  · rw [if_pos hu]
    by_cases hv : v < 0
    · -- Of two negative numbers the smaller one is the larger magnitude.
      have hround : (Magnitude.round v.natAbs 1).units ≤ (Magnitude.round u.natAbs 1).units :=
        Magnitude.units_round_mono (by omega)
      rw [if_pos hv]
      omega
    · rw [if_neg hv]
      omega
  · rw [if_neg hu, if_neg (by omega), Int.ofNat_le]
    exact Magnitude.units_round_mono (by omega)

/-! ### Sums -/

/-- No double has more units than infinity. -/
theorem toUnits_le_overflowUnits (x : Binary64) :
    -(overflowUnits : Int) ≤ x.toUnits ∧ x.toUnits ≤ overflowUnits := by
  cases x with
  | nan => exact ⟨Int.neg_nonpos_of_nonneg (Int.natCast_nonneg _), Int.natCast_nonneg _⟩
  | signed s m =>
    have hle := m.le_overflow
    cases s <;> simp only [toUnits] <;> omega

/-- The finite numbers are the ones between the infinities. -/
theorem isFinite_iff_toUnits {x : Binary64} (hx : x.isNaN = false) :
    x.isFinite = true ↔ -(overflowUnits : Int) < x.toUnits ∧ x.toUnits < overflowUnits := by
  cases x with
  | nan => cases hx
  | signed s m =>
    have hle := m.le_overflow
    rw [isFinite, Magnitude.isInfinite, Bool.not_eq_true', beq_eq_false_iff_ne]
    cases s <;> simp only [toUnits] <;> omega

/-- Adding a finite double leaves an infinity alone. -/
theorem add_of_isFinite_eq_false {x z : Binary64} (hx : x.isNaN = false) (hinf : x.isFinite = false)
    (hz : z.isFinite = true) : x + z = x := by
  obtain ⟨t, k, rfl, hk⟩ := isFinite_iff.1 hz
  cases x with
  | nan => cases hx
  | signed s m =>
    have hm : m.isInfinite = true := by simpa [isFinite] using hinf
    show Binary64.add _ _ = _
    rw [Binary64.add, hm, hk]
    rfl

/-- Adding the same finite double keeps the order. -/
theorem add_le_add_right {x y z : Binary64} (h : x ≤ y) (hz : z.isFinite = true) : x + z ≤ y + z := by
  obtain ⟨hx, hy, hunits⟩ := le_iff.1 h
  refine le_iff.2 ⟨isNaN_add_of_isFinite hx hz, isNaN_add_of_isFinite hy hz, ?_⟩
  have hlow := (toUnits_le_overflowUnits (y + z)).1
  have hhigh := (toUnits_le_overflowUnits (x + z)).2
  have hxbounds := toUnits_le_overflowUnits x
  have hybounds := toUnits_le_overflowUnits y
  by_cases hfinx : x.isFinite = true
  · by_cases hfiny : y.isFinite = true
    · obtain ⟨s, hsum⟩ := add_eq_ofUnits hfinx hz
      obtain ⟨t, hsum'⟩ := add_eq_ofUnits hfiny hz
      rw [hsum, hsum']
      exact toUnits_ofUnits_mono s t (by omega)
    · -- Above a finite number there is only the positive infinity.
      rw [add_of_isFinite_eq_false hy (by simpa using hfiny) hz]
      rw [isFinite_iff_toUnits hx] at hfinx
      rw [isFinite_iff_toUnits hy] at hfiny
      omega
  · have hkeep := add_of_isFinite_eq_false hx (by simpa using hfinx) hz
    rw [isFinite_iff_toUnits hx] at hfinx
    by_cases hneg : x.toUnits < 0
    · rw [hkeep]
      omega
    · -- The smaller one is the positive infinity already, and so is the larger one.
      have hinfy : y.isFinite = false := by
        rw [← Bool.not_eq_true, isFinite_iff_toUnits hy]
        omega
      rw [hkeep, add_of_isFinite_eq_false hy hinfy hz]
      exact hunits

/-! ### Amounts -/

/-- An amount that is not finite is the positive infinity. -/
theorem eq_infinity {x : Binary64} (hx : 0 ≤ x) (hinf : x.isFinite = false) : x = infinity := by
  obtain ⟨-, hnum, hpos⟩ := le_iff.1 hx
  have hrank : infinity.rank = overflowUnits := rfl
  rw [toUnits_zero] at hpos
  rw [← Bool.not_eq_true, isFinite_iff_toUnits hnum] at hinf
  apply rank_injective
  cases x with
  | nan => cases hnum
  | signed s m =>
    have hle := m.le_overflow
    have hpow : 0 < overflowUnits := Nat.two_pow_pos overflowExponent
    rw [hrank]
    cases s <;> simp only [toUnits, rank] at * <;> omega

/-- Infinity is infinite. -/
theorem isInfinite_infinity : Magnitude.infinity.isInfinite = true := beq_self_eq_true overflowUnits

/-- Adding infinity to a finite double gives infinity. -/
theorem add_signedInfinity {x : Binary64} (hx : x.isFinite = true) (negative : Bool) :
    x + signedInfinity negative = signedInfinity negative := by
  obtain ⟨s, m, rfl, hm⟩ := isFinite_iff.1 hx
  show Binary64.add _ _ = _
  rw [signedInfinity, Binary64.add, hm, isInfinite_infinity]
  rfl

/-- An amount and infinity make infinity. -/
theorem add_infinity {x : Binary64} (hx : 0 ≤ x) : x + infinity = infinity := by
  by_cases hfinx : x.isFinite = true
  · exact add_signedInfinity hfinx false
  · rw [eq_infinity hx (by simpa using hfinx)]
    show Binary64.add _ _ = _
    rw [infinity, signedInfinity, Binary64.add, isInfinite_infinity]
    rfl

/-- Sums of amounts are amounts. -/
theorem add_nonneg {x y : Binary64} (hx : 0 ≤ x) (hy : 0 ≤ y) : 0 ≤ x + y := by
  by_cases hfiny : y.isFinite = true
  · by_cases hfinx : x.isFinite = true
    · obtain ⟨s, hsum⟩ := add_eq_ofUnits hfinx hfiny
      have hmono := toUnits_ofUnits_mono s s (u := 0) (v := x.toUnits + y.toUnits) (by
        rw [le_iff, toUnits_zero] at hx hy
        omega)
      rw [ofUnits, if_pos rfl, toUnits_signedZero] at hmono
      rw [hsum]
      exact le_iff.2 ⟨rfl, isNaN_ofUnits _ _, by rwa [toUnits_zero]⟩
    · rwa [add_of_isFinite_eq_false (isNaN_of_le_right hx) (by simpa using hfinx) hfiny]
  · have hinfy := eq_infinity hy (by simpa using hfiny)
    subst hinfy
    rw [add_infinity hx]
    exact hy

/-- Adding the same amount to two amounts keeps their order. -/
theorem add_le_add_of_nonneg {x y z : Binary64} (hx : 0 ≤ x) (h : x ≤ y) (hz : 0 ≤ z) :
    x + z ≤ y + z := by
  by_cases hfin : z.isFinite = true
  · exact add_le_add_right h hfin
  · have hinf := eq_infinity hz (by simpa using hfin)
    subst hinf
    rw [add_infinity hx, add_infinity (Binary64.le_trans hx h)]
    exact Binary64.le_refl rfl

/-- A finite number of units is kept. -/
theorem toUnits_ofUnits_toUnits {x : Binary64} (hx : x.isFinite = true) (zeroSign : Bool) :
    (ofUnits zeroSign x.toUnits).toUnits = x.toUnits := by
  obtain ⟨s, m, rfl, hm⟩ := isFinite_iff.1 hx
  have habs : (signed s m).toUnits.natAbs = m.units := by cases s <;> simp [toUnits]
  have hlt : m.units < overflowUnits :=
    Nat.lt_of_le_of_ne m.le_overflow (by simpa [Magnitude.isInfinite] using hm)
  exact (toUnits_ofUnits zeroSign (by rw [habs]; exact m.onGrid) (by rwa [habs])).2

/-- Adding an amount does not lower what there is. -/
theorem le_add_right {x z : Binary64} (hx : 0 ≤ x) (hz : 0 ≤ z) : x ≤ x + z := by
  have hnumx := isNaN_of_le_right hx
  by_cases hfinz : z.isFinite = true
  · by_cases hfinx : x.isFinite = true
    · obtain ⟨s, hsum⟩ := add_eq_ofUnits hfinx hfinz
      refine le_iff.2 ⟨hnumx, isNaN_add_of_isFinite hnumx hfinz, ?_⟩
      rw [hsum, ← toUnits_ofUnits_toUnits hfinx s]
      apply toUnits_ofUnits_mono
      rw [toUnits_ofUnits_toUnits hfinx]
      rw [le_iff, toUnits_zero] at hz
      omega
    · rw [add_of_isFinite_eq_false hnumx (by simpa using hfinx) hfinz]
      exact Binary64.le_refl hnumx
  · have hinf := eq_infinity hz (by simpa using hfinz)
    subst hinf
    rw [add_infinity hx]
    exact le_iff.2 ⟨hnumx, rfl, (toUnits_le_overflowUnits x).2⟩

/-- Taking an amount away does not raise what there is. -/
theorem sub_le_self {x r : Binary64} (hx : 0 ≤ x) (hr : 0 ≤ r) (hnum : (x - r).isNaN = false) :
    x - r ≤ x := by
  have hnumx := isNaN_of_le_right hx
  by_cases hfinr : r.isFinite = true
  · have hneg : (-r).isFinite = true := by rwa [isFinite_neg]
    by_cases hfinx : x.isFinite = true
    · obtain ⟨s, hsum⟩ := add_eq_ofUnits hfinx hneg
      refine le_iff.2 ⟨hnum, hnumx, ?_⟩
      show (x + -r).toUnits ≤ _
      rw [hsum, ← toUnits_ofUnits_toUnits hfinx s]
      apply toUnits_ofUnits_mono
      rw [toUnits_ofUnits_toUnits hfinx, toUnits_neg]
      rw [le_iff, toUnits_zero] at hr
      omega
    · show x + -r ≤ x
      rw [add_of_isFinite_eq_false hnumx (by simpa using hfinx) hneg]
      exact Binary64.le_refl hnumx
  · -- Without infinity nothing is left, and infinity less infinity is not a number.
    have hinfr := eq_infinity hr (by simpa using hfinr)
    subst hinfr
    by_cases hfinx : x.isFinite = true
    · have hsum : x - infinity = signedInfinity true := add_signedInfinity hfinx true
      rw [hsum]
      exact le_iff.2 ⟨rfl, hnumx, (toUnits_le_overflowUnits x).1⟩
    · have hnan : infinity - infinity = nan := by
        show Binary64.add (signed false .infinity) (signed true .infinity) = nan
        rw [Binary64.add, isInfinite_infinity]
        rfl
      rw [eq_infinity hx (by simpa using hfinx), hnan] at hnum
      cases hnum

/-- Taking an amount away, down to zero at most, does not raise what there is. -/
theorem maxNum_sub_zero_le {x r : Binary64} (hx : 0 ≤ x) (hr : 0 ≤ r) : (x - r).maxNum 0 ≤ x := by
  cases hnum : (x - r).isNaN with
  | false => exact maxNum_le (sub_le_self hx hr hnum) hx
  | true =>
    cases hsub : x - r with
    | nan => rwa [maxNum_nan_left]
    | signed s m => rw [hsub] at hnum; cases hnum

end Binary64

end PodPlacement
