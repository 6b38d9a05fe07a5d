import Mathlib.Data.Int.Order.Basic
import PodPlacement.Ledger

/-! # The two orders of doubles

Doubles carry a numeric comparison, in which NaN takes no part, and a total order given by `rank`. This
file ties both to the number of units.

* `le_iff`, `lt_iff` — the numeric comparisons are those of units, for doubles that are numbers.
* `rank_injective` — the total order tells all doubles apart, the two zeros among them.
* `le_maxNum_left`, `le_maxNum_right`, `maxNum_le` — the larger of two doubles is an upper bound of
  the ones that are numbers, and the least one.
* `maxNum_eq_left_iff`, `maxNum_maxNum_of_le` — how instants that rank from zero on grow.
* `mem_of_earliest?`, `rank_le_of_earliest?` — the earliest of some instants is one of them, and none
  ranks lower. -/

namespace PodPlacement

/-- A magnitude is told by its units. -/
theorem Magnitude.eq_of_units_eq {m n : Magnitude} (h : m.units = n.units) : m = n := by
  cases m; cases n; cases h; rfl

namespace Binary64

/-! ### Numbers -/

/-- A finite double is a number. -/
theorem isNaN_of_isFinite {x : Binary64} (h : x.isFinite = true) : x.isNaN = false := by
  cases x with
  | nan => simp [isFinite] at h
  | signed s m => rfl

/-- A natural number is a number. -/
@[simp] theorem isNaN_ofNat (n : Nat) : (OfNat.ofNat n : Binary64).isNaN = false := rfl

/-- Zero has no units. -/
@[simp] theorem toUnits_zero : (0 : Binary64).toUnits = 0 := by
  have hround : roundSignificant 0 1 = 0 := rfl
  show ((Magnitude.ofNat 0).units : Int) = 0
  simp only [Magnitude.ofNat, Magnitude.round, Nat.zero_mul, hround, Nat.zero_min, Int.natCast_zero]

/-! ### Numeric comparison -/

/-- Numeric order is the order of units between doubles that are numbers. -/
theorem le_iff {x y : Binary64} :
    x ≤ y ↔ x.isNaN = false ∧ y.isNaN = false ∧ x.toUnits ≤ y.toUnits := by
  cases x with
  | nan => exact ⟨fun h => absurd h (by simp [LE.le, Binary64.le]), fun h => by simp [isNaN] at h⟩
  | signed s m =>
    cases y with
    | nan => exact ⟨fun h => absurd h (by simp [LE.le, Binary64.le]), fun h => by simp [isNaN] at h⟩
    | signed t n =>
      show Binary64.le _ _ = true ↔ _
      rw [Binary64.le, decide_eq_true_eq]
      exact ⟨fun h => ⟨rfl, rfl, h⟩, fun h => h.2.2⟩

/-- Strict numeric order is the strict order of units between doubles that are numbers. -/
theorem lt_iff {x y : Binary64} :
    x < y ↔ x.isNaN = false ∧ y.isNaN = false ∧ x.toUnits < y.toUnits := by
  cases x with
  | nan => exact ⟨fun h => absurd h (by simp [LT.lt, Binary64.lt]), fun h => by simp [isNaN] at h⟩
  | signed s m =>
    cases y with
    | nan => exact ⟨fun h => absurd h (by simp [LT.lt, Binary64.lt]), fun h => by simp [isNaN] at h⟩
    | signed t n =>
      show Binary64.lt _ _ = true ↔ _
      rw [Binary64.lt, decide_eq_true_eq]
      exact ⟨fun h => ⟨rfl, rfl, h⟩, fun h => h.2.2⟩

/-- Between numbers, numeric order is the order of units. -/
theorem le_iff_toUnits_le {x y : Binary64} (hx : x.isNaN = false) (hy : y.isNaN = false) :
    x ≤ y ↔ x.toUnits ≤ y.toUnits := by
  rw [le_iff, hx, hy]
  simp only [true_and]

/-- Between numbers, strict numeric order is the strict order of units. -/
theorem lt_iff_toUnits_lt {x y : Binary64} (hx : x.isNaN = false) (hy : y.isNaN = false) :
    x < y ↔ x.toUnits < y.toUnits := by
  rw [lt_iff, hx, hy]
  simp only [true_and]

/-- A double that is at most another one is a number. -/
theorem isNaN_of_le_left {x y : Binary64} (h : x ≤ y) : x.isNaN = false := (le_iff.1 h).1

/-- A double that another one is at most is a number. -/
theorem isNaN_of_le_right {x y : Binary64} (h : x ≤ y) : y.isNaN = false := (le_iff.1 h).2.1

/-- A number is at most itself. -/
protected theorem le_refl {x : Binary64} (h : x.isNaN = false) : x ≤ x := le_iff.2 ⟨h, h, Int.le_refl _⟩

/-- Numeric order is transitive. -/
protected theorem le_trans {x y z : Binary64} (hxy : x ≤ y) (hyz : y ≤ z) : x ≤ z := by
  rw [le_iff] at *
  exact ⟨hxy.1, hyz.2.1, Int.le_trans hxy.2.2 hyz.2.2⟩

/-- A strict comparison followed by a weak one is strict. -/
protected theorem lt_of_lt_of_le {x y z : Binary64} (hxy : x < y) (hyz : y ≤ z) : x < z := by
  rw [lt_iff] at *
  rw [le_iff] at hyz
  exact ⟨hxy.1, hyz.2.1, Int.lt_of_lt_of_le hxy.2.2 hyz.2.2⟩

/-- A weak comparison followed by a strict one is strict. -/
protected theorem lt_of_le_of_lt {x y z : Binary64} (hxy : x ≤ y) (hyz : y < z) : x < z := by
  rw [lt_iff] at *
  rw [le_iff] at hxy
  exact ⟨hxy.1, hyz.2.1, Int.lt_of_le_of_lt hxy.2.2 hyz.2.2⟩

/-- A strictly smaller double is at most the other one. -/
protected theorem le_of_lt {x y : Binary64} (h : x < y) : x ≤ y := by
  rw [lt_iff] at h
  exact le_iff.2 ⟨h.1, h.2.1, Int.le_of_lt h.2.2⟩

/-- What is at most another double is not strictly larger. -/
protected theorem not_lt_of_le {x y : Binary64} (h : x ≤ y) : ¬ y < x := by
  intro hlt
  have hself := Binary64.lt_of_le_of_lt h hlt
  rw [lt_iff] at hself
  exact Int.lt_irrefl _ hself.2.2

/-- Of two numbers one is at most the other or strictly larger. -/
theorem not_le_iff {x y : Binary64} (hx : x.isNaN = false) (hy : y.isNaN = false) :
    ¬ x ≤ y ↔ y < x := by
  rw [le_iff_toUnits_le hx hy, lt_iff_toUnits_lt hy hx, not_le]

/-- Doubles are numerically equal if each is at most the other. -/
theorem equals_iff {x y : Binary64} : x.equals y = true ↔ x ≤ y ∧ y ≤ x := by
  rw [equals, Bool.and_eq_true]
  exact Iff.rfl

/-! ### The total order -/

/-- The total order tells all doubles apart. -/
theorem rank_injective {x y : Binary64} (h : x.rank = y.rank) : x = y := by
  cases x with
  | nan =>
    cases y with
    | nan => rfl
    | signed t n =>
      have := n.le_overflow
      cases t <;> simp only [rank] at h <;> omega
  | signed s m =>
    have := m.le_overflow
    cases y with
    | nan => cases s <;> simp only [rank] at h <;> omega
    | signed t n =>
      cases s <;> cases t <;> simp only [rank] at h
      · rw [Magnitude.eq_of_units_eq (m := m) (n := n) (by omega)]
      · omega
      · omega
      · rw [Magnitude.eq_of_units_eq (m := m) (n := n) (by omega)]

/-- The order of ranks refines the order of units. -/
theorem toUnits_le_of_rank_le {x y : Binary64} (hx : x.isNaN = false) (hy : y.isNaN = false)
    (h : x.rank ≤ y.rank) : x.toUnits ≤ y.toUnits := by
  cases x with
  | nan => simp [isNaN] at hx
  | signed s m =>
    cases y with
    | nan => simp [isNaN] at hy
    | signed t n => cases s <;> cases t <;> simp only [rank, toUnits] at * <;> omega

/-- From zero on, ranks are units. -/
theorem toUnits_eq_rank {x : Binary64} (hx : x.isNaN = false) (h : 0 ≤ x.rank) : x.toUnits = x.rank := by
  cases x with
  | nan => cases hx
  | signed s m =>
    cases s with
    | false => rfl
    | true => simp only [rank] at h; omega

/-- Below zero, ranks are lower by one than units. -/
theorem toUnits_eq_rank_add_one {x : Binary64} (hx : x.isNaN = false) (h : x.rank < 0) :
    x.toUnits = x.rank + 1 := by
  cases x with
  | nan => cases hx
  | signed s m =>
    cases s with
    | false => simp only [rank] at h; omega
    | true => simp only [rank, toUnits]; omega

/-- A number that ranks from zero on is below another one exactly if it ranks lower. -/
theorem lt_iff_rank_lt {x y : Binary64} (hx : x.isNaN = false) (hy : y.isNaN = false) (hzero : 0 ≤ x.rank) :
    x < y ↔ x.rank < y.rank := by
  rw [lt_iff, toUnits_eq_rank hx hzero]
  rcases Int.lt_or_le y.rank 0 with hneg | hpos
  · rw [toUnits_eq_rank_add_one hy hneg]
    constructor
    · rintro ⟨-, -, hlt⟩
      omega
    · intro hlt
      omega
  · rw [toUnits_eq_rank hy hpos]
    simp [hx, hy]

/-- Nothing ranks above NaN. -/
theorem rank_le_rank_nan (x : Binary64) : x.rank ≤ nan.rank := by
  cases x with
  | nan => exact Int.le_refl _
  | signed s m =>
    have := m.le_overflow
    cases s <;> simp only [rank] <;> omega

/-- Only NaN ranks as high as NaN. -/
theorem isNaN_of_rank_le {x y : Binary64} (h : x.rank ≤ y.rank) (hx : x.isNaN = true) :
    y.isNaN = true := by
  cases x with
  | signed s m => simp [isNaN] at hx
  | nan => rw [← rank_injective (le_antisymm h (rank_le_rank_nan y))]; rfl

/-- What ranks no higher than a number that is at most `t` is at most `t`. -/
theorem le_of_rank_le {x y t : Binary64} (h : x.rank ≤ y.rank) (hy : y ≤ t) : x ≤ t := by
  rw [le_iff] at *
  have hx : x.isNaN = false := by
    by_contra hne
    rw [isNaN_of_rank_le h (by simpa using hne)] at hy
    simp at hy
  exact ⟨hx, hy.2.1, Int.le_trans (toUnits_le_of_rank_le hx hy.1 h) hy.2.2⟩

/-- Comparing doubles is comparing ranks. -/
theorem compare_eq (x y : Binary64) : compare x y = compare x.rank y.rank := rfl

/-- One double comes no later than another iff it ranks no higher. -/
theorem isLE_compare_iff {x y : Binary64} : (compare x y).isLE ↔ x.rank ≤ y.rank := by
  rw [compare_eq, Int.isLE_compare]

instance : Std.TransOrd Binary64 where
  eq_swap {a b} := Std.OrientedOrd.eq_swap (α := Int) (a := a.rank) (b := b.rank)
  isLE_trans {a b c} := Std.TransOrd.isLE_trans (α := Int) (a := a.rank) (b := b.rank) (c := c.rank)

/-! ### The larger of two doubles -/

/-- NaN gives way on the left. -/
@[simp] theorem maxNum_nan_left (y : Binary64) : maxNum nan y = y := by cases y <;> rfl

/-- NaN gives way on the right. -/
@[simp] theorem maxNum_nan_right (x : Binary64) : maxNum x nan = x := by cases x <;> rfl

/-- The larger of two numbers is the one that ranks higher. -/
theorem maxNum_of_isNaN_eq_false {x y : Binary64} (hx : x.isNaN = false) (hy : y.isNaN = false) :
    maxNum x y = if x.rank ≤ y.rank then y else x := by
  cases x with
  | nan => simp [isNaN] at hx
  | signed s m =>
    cases y with
    | nan => simp [isNaN] at hy
    | signed t n => rfl

/-- The larger of two doubles is NaN only if both are. -/
theorem isNaN_maxNum (x y : Binary64) : (maxNum x y).isNaN = (x.isNaN && y.isNaN) := by
  cases hx : x.isNaN with
  | true => cases x <;> simp_all [isNaN]
  | false =>
    cases hy : y.isNaN with
    | true => cases y <;> simp_all [isNaN]
    | false => rw [maxNum_of_isNaN_eq_false hx hy]; split <;> simp [hx, hy]

/-- The larger of two doubles is a number as soon as the first is. -/
theorem isNaN_maxNum_left {x : Binary64} (hx : x.isNaN = false) (y : Binary64) :
    (maxNum x y).isNaN = false := by
  rw [isNaN_maxNum, hx, Bool.false_and]

/-- The larger of two numbers has the larger number of units. -/
theorem toUnits_maxNum {x y : Binary64} (hx : x.isNaN = false) (hy : y.isNaN = false) :
    (maxNum x y).toUnits = max x.toUnits y.toUnits := by
  rw [maxNum_of_isNaN_eq_false hx hy]
  split
  · rename_i h
    rw [max_eq_right (toUnits_le_of_rank_le hx hy h)]
  · rename_i h
    rw [max_eq_left (toUnits_le_of_rank_le hy hx (le_of_not_ge h))]

/-- The larger of two doubles is at least the first one. -/
theorem le_maxNum_left {x : Binary64} (hx : x.isNaN = false) (y : Binary64) : x ≤ maxNum x y := by
  cases hy : y.isNaN with
  | true => cases y <;> simp_all [isNaN, Binary64.le_refl]
  | false =>
    exact le_iff.2 ⟨hx, isNaN_maxNum_left hx y, by rw [toUnits_maxNum hx hy]; exact le_max_left _ _⟩

/-- The larger of two doubles is at least the second one. -/
theorem le_maxNum_right (x : Binary64) {y : Binary64} (hy : y.isNaN = false) : y ≤ maxNum x y := by
  cases hx : x.isNaN with
  | true => cases x <;> simp_all [isNaN, Binary64.le_refl]
  | false =>
    exact le_iff.2 ⟨hy, isNaN_maxNum_left hx y, by rw [toUnits_maxNum hx hy]; exact le_max_right _ _⟩

/-- The larger of two doubles is at most every common upper bound. -/
theorem maxNum_le {x y z : Binary64} (hx : x ≤ z) (hy : y ≤ z) : maxNum x y ≤ z := by
  rw [le_iff] at *
  refine ⟨isNaN_maxNum_left hx.1 y, hx.2.1, ?_⟩
  rw [toUnits_maxNum hx.1 hy.1]
  exact max_le hx.2.2 hy.2.2

/-- The larger of two doubles is one of them. -/
theorem maxNum_eq_or (x y : Binary64) : maxNum x y = x ∨ maxNum x y = y := by
  cases x with
  | nan => exact .inr (maxNum_nan_left y)
  | signed s m =>
    cases y with
    | nan => exact .inl rfl
    | signed t n =>
      rw [maxNum_of_isNaN_eq_false rfl rfl]
      split
      · exact .inr rfl
      · exact .inl rfl

/-- The smaller of two doubles is one of them. -/
theorem minNum_eq_or (x y : Binary64) : minNum x y = x ∨ minNum x y = y := by
  cases x with
  | nan => exact .inr (by cases y <;> rfl)
  | signed s m =>
    cases y with
    | nan => exact .inl rfl
    | signed t n =>
      show (if _ then _ else _) = _ ∨ (if _ then _ else _) = _
      split
      · exact .inl rfl
      · exact .inr rfl

/-- The smaller of two numbers ranks no higher than either. -/
theorem rank_minNum_le {x y : Binary64} (hx : x.isNaN = false) (hy : y.isNaN = false) :
    (minNum x y).rank ≤ x.rank ∧ (minNum x y).rank ≤ y.rank := by
  cases x with
  | nan => simp [isNaN] at hx
  | signed s m =>
    cases y with
    | nan => simp [isNaN] at hy
    | signed t n =>
      show (if _ then _ else _ : Binary64).rank ≤ _ ∧ (if _ then _ else _ : Binary64).rank ≤ _
      split
      · rename_i h
        exact ⟨Int.le_refl _, h⟩
      · rename_i h
        exact ⟨Int.le_of_not_le h, Int.le_refl _⟩

/-- A number that ranks from zero on is the larger one exactly if it is not below the other one. -/
theorem maxNum_eq_left_iff {x y : Binary64} (hx : x.isNaN = false) (hzero : 0 ≤ x.rank) :
    maxNum x y = x ↔ ¬ x < y := by
  cases hy : y.isNaN with
  | true =>
    have hnan : y = nan := by
      cases y with
      | nan => rfl
      | signed => cases hy
    rw [hnan, maxNum_nan_right, lt_iff]
    simp [isNaN]
  | false =>
    rw [maxNum_of_isNaN_eq_false hx hy, lt_iff_rank_lt hx hy hzero]
    constructor
    · intro hsame hlt
      rw [if_pos (Int.le_of_lt hlt)] at hsame
      rw [hsame] at hlt
      exact Int.lt_irrefl _ hlt
    · intro hlt
      split
      · rename_i hle
        exact (rank_injective (Int.le_antisymm hle (Int.not_lt.1 hlt))).symm
      · rfl

/-- For a number that ranks from zero on, a bound that is taken into account does not matter once one that is
no lower is. -/
theorem maxNum_maxNum_of_le {x t u : Binary64} (hx : x.isNaN = false) (hzero : 0 ≤ x.rank) (h : t ≤ u) :
    maxNum (maxNum x t) u = maxNum x u := by
  obtain ⟨ht, hu, hle⟩ := le_iff.1 h
  by_cases hxt : x < t
  · have hrank := (lt_iff_rank_lt hx ht hzero).1 hxt
    have htu : t.rank ≤ u.rank := by
      rw [toUnits_eq_rank ht (by omega)] at hle
      rcases Int.lt_or_le u.rank 0 with hneg | hpos
      · rw [toUnits_eq_rank_add_one hu hneg] at hle
        omega
      · rwa [toUnits_eq_rank hu hpos] at hle
    rw [maxNum_of_isNaN_eq_false hx ht, if_pos (Int.le_of_lt hrank), maxNum_of_isNaN_eq_false ht hu,
      maxNum_of_isNaN_eq_false hx hu, if_pos htu, if_pos (Int.le_trans (Int.le_of_lt hrank) htu)]
  · rw [(maxNum_eq_left_iff hx hzero).2 hxt]

/-- Taking the larger one twice is taking it once. -/
@[simp] theorem maxNum_maxNum_self (x y : Binary64) : maxNum (maxNum x y) y = maxNum x y := by
  cases y with
  | nan => rw [maxNum_nan_right]
  | signed t n =>
    rcases maxNum_eq_or x (signed t n) with h | h
    · rw [h, h]
    · rw [h, maxNum_of_isNaN_eq_false rfl rfl, if_pos (Int.le_refl _)]

end Binary64

namespace Ledger

/-! ### The earliest of some instants -/

/-- There is an earliest instant as soon as there are instants. -/
theorem earliest?_eq_none {ts : List Seconds} : earliest? ts = none ↔ ts = [] := by
  cases ts with
  | nil => exact ⟨fun _ => rfl, fun _ => rfl⟩
  | cons t ts => exact ⟨fun h => by simp [earliest?] at h, fun h => by simp at h⟩

/-- The earliest of some instants is one of them. -/
theorem mem_of_earliest? {ts : List Seconds} {t : Seconds} (h : earliest? ts = some t) : t ∈ ts := by
  cases ts with
  | nil => simp [earliest?] at h
  | cons a as =>
    rw [earliest?, Option.some.injEq] at h
    rw [← h]
    clear h
    induction as generalizing a with
    | nil => exact List.mem_singleton.2 rfl
    | cons b bs ih =>
      rw [List.foldl_cons]
      split
      · exact List.mem_cons_of_mem a (ih b)
      · rcases List.mem_cons.1 (ih a) with h | h
        · rw [h]; exact List.mem_cons_self
        · exact List.mem_cons_of_mem a (List.mem_cons_of_mem b h)

/-- The earliest of some instants ranks no higher than any of them. -/
theorem rank_le_of_earliest? {ts : List Seconds} {t : Seconds} (h : earliest? ts = some t) :
    ∀ u ∈ ts, t.rank ≤ u.rank := by
  cases ts with
  | nil => simp [earliest?] at h
  | cons a as =>
    rw [earliest?, Option.some.injEq] at h
    rw [← h]
    clear h
    -- The instant carried along only ever goes down in rank.
    induction as generalizing a with
    | nil => simp
    | cons b bs ih =>
      rw [List.foldl_cons]
      intro u hu
      by_cases hlt : (compare b a).isLT = true
      · rw [if_pos hlt]
        have hba : b.rank ≤ a.rank := by
          apply Binary64.isLE_compare_iff.1
          cases hc : compare b a <;> simp_all
        rcases List.mem_cons.1 hu with rfl | hu
        · exact Int.le_trans (ih b b List.mem_cons_self) hba
        · exact ih b u hu
      · rw [if_neg hlt]
        have hab : a.rank ≤ b.rank := by
          apply Binary64.isLE_compare_iff.1
          rw [← Std.OrientedCmp.isGE_iff_isLE]
          cases hc : compare b a <;> simp_all
        rcases List.mem_cons.1 hu with rfl | hu
        · exact ih u u List.mem_cons_self
        · rcases List.mem_cons.1 hu with rfl | hu
          · exact Int.le_trans (ih a a List.mem_cons_self) hab
          · exact ih a u (List.mem_cons_of_mem a hu)

end Ledger

end PodPlacement
