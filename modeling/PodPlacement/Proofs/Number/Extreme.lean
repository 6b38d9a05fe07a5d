import PodPlacement.Proofs.Number.Monotone

/-! # The largest and the smallest of some doubles

The larger of two doubles is one of them and, if both are numbers, an upper bound of them. So the largest of a
list is one of its members and an upper bound of all of them, and it does not depend on the order in which they
are compared. The same goes for the smallest.

* `foldl_mem_cons`, `foldl_bound` — what an operation that picks one of two elements picks from a list.
* `numberRank_maxNum`, `maxNum_right_comm` — the larger one is the one with the higher place, so the order of the
  comparisons does not matter.
* `le_foldl_maxNum`, `foldl_minNum_le` — the result is a bound. -/

namespace PodPlacement

/-! ### Picking one element of a list -/

section Pick

variable {α : Type} {op : α → α → α}

/-- If an operation picks one of two elements, it picks one of a list. -/
theorem foldl_mem_cons (hpick : ∀ a b, op a b = a ∨ op a b = b) (a : α) (as : List α) :
    as.foldl op a ∈ a :: as := by
  induction as generalizing a with
  | nil => exact List.mem_singleton_self a
  | cons b bs ih =>
    rw [List.foldl_cons]
    rcases List.mem_cons.1 (ih (op a b)) with hsame | hmem
    · rw [hsame]
      rcases hpick a b with h | h <;> rw [h] <;> simp
    · exact List.mem_cons_of_mem a (List.mem_cons_of_mem b hmem)

/-- If the picked element is a bound of the two it is picked from, then it is a bound of a list. -/
theorem foldl_bound {P : α → Prop} {R : α → α → Prop} (hrefl : ∀ {a}, P a → R a a)
    (htrans : ∀ {a b c}, R a b → R b c → R a c)
    (hop : ∀ {a b}, P a → P b → P (op a b) ∧ R a (op a b) ∧ R b (op a b)) {a : α} {as : List α}
    (ha : P a) (has : ∀ b ∈ as, P b) : ∀ b ∈ a :: as, R b (as.foldl op a) := by
  induction as generalizing a with
  | nil =>
    intro b hb
    rw [List.mem_singleton.1 hb]
    exact hrefl ha
  | cons c cs ih =>
    obtain ⟨hc, hcs⟩ := List.forall_mem_cons.1 has
    obtain ⟨hpicked, hleft, hright⟩ := hop ha hc
    obtain ⟨hfirst, hrest⟩ := List.forall_mem_cons.1 (ih hpicked hcs)
    refine List.forall_mem_cons.2 ⟨htrans hleft hfirst, List.forall_mem_cons.2 ⟨htrans hright hfirst, hrest⟩⟩

end Pick

namespace Binary64

/-! ### The largest -/

/-- The place of a double when the larger one is looked for: NaN gives way to all numbers. -/
def numberRank : Binary64 → Int
  | nan => -overflowUnits - 2
  | signed s m => (signed s m).rank

/-- Numbers rank above NaN. -/
theorem numberRank_nan_lt (s : Bool) (m : Magnitude) : nan.numberRank < (signed s m).numberRank := by
  have hle := m.le_overflow
  cases s <;> simp only [numberRank, rank] <;> omega

/-- The places tell all doubles apart. -/
theorem numberRank_injective {x y : Binary64} (h : x.numberRank = y.numberRank) : x = y := by
  cases x with
  | nan =>
    cases y with
    | nan => rfl
    | signed t n => exact absurd h (numberRank_nan_lt t n).ne
  | signed s m =>
    cases y with
    | nan => exact absurd h.symm (numberRank_nan_lt s m).ne
    | signed t n => exact rank_injective h

/-- The larger of two doubles is the one with the higher place. -/
theorem numberRank_maxNum (x y : Binary64) :
    (maxNum x y).numberRank = max x.numberRank y.numberRank := by
  cases x with
  | nan =>
    cases y with
    | nan => exact (max_self _).symm
    | signed t n => rw [maxNum_nan_left, max_eq_right (numberRank_nan_lt t n).le]
  | signed s m =>
    cases y with
    | nan => rw [maxNum_nan_right, max_eq_left (numberRank_nan_lt s m).le]
    | signed t n =>
      rw [maxNum_of_isNaN_eq_false rfl rfl]
      split
      · rename_i hle
        exact (max_eq_right hle).symm
      · rename_i hlt
        exact (max_eq_left (Int.le_of_not_le hlt)).symm

/-- Two doubles may be taken into account in either order. -/
theorem maxNum_right_comm (x y z : Binary64) : maxNum (maxNum x y) z = maxNum (maxNum x z) y := by
  apply numberRank_injective
  simp only [numberRank_maxNum]
  exact max_right_comm _ _ _

instance : RightCommutative maxNum := ⟨maxNum_right_comm⟩

/-- The largest of some numbers is an upper bound of them. -/
theorem le_foldl_maxNum {t : Binary64} {ts : List Binary64} (ht : t.isNaN = false)
    (hts : ∀ u ∈ ts, u.isNaN = false) : ∀ u ∈ t :: ts, u ≤ ts.foldl maxNum t :=
  foldl_bound (P := fun u : Binary64 => u.isNaN = false) Binary64.le_refl Binary64.le_trans
    (fun ha hb => ⟨isNaN_maxNum_left ha _, le_maxNum_left ha _, le_maxNum_right _ hb⟩) ht hts

/-! ### The smallest -/

/-- The smallest of some numbers is a lower bound of them. -/
theorem foldl_minNum_le {t : Binary64} {ts : List Binary64} (ht : t.isNaN = false)
    (hts : ∀ u ∈ ts, u.isNaN = false) : ∀ u ∈ t :: ts, ts.foldl minNum t ≤ u := by
  refine foldl_bound (P := fun u : Binary64 => u.isNaN = false) (R := fun a b => b ≤ a) Binary64.le_refl
    (fun hab hbc => Binary64.le_trans hbc hab) ?_ ht hts
  intro a b ha hb
  obtain ⟨hleft, hright⟩ := rank_minNum_le ha hb
  have hle := le_of_rank_le hleft (Binary64.le_refl ha)
  exact ⟨isNaN_of_le_left hle, hle, le_of_rank_le hright (Binary64.le_refl hb)⟩

/-! ### Infinities -/

/-- Nothing is below the negative infinity. -/
theorem neg_infinity_le {x : Binary64} (hx : x.isNaN = false) : -infinity ≤ x :=
  le_iff.2 ⟨rfl, hx, (toUnits_le_overflowUnits x).1⟩

/-- What is at least infinity is infinity. -/
theorem eq_infinity_of_le {x : Binary64} (h : infinity ≤ x) : x = infinity := by
  obtain ⟨-, hx, hunits⟩ := le_iff.1 h
  have hzero : (0 : Binary64) ≤ infinity := le_iff.2 ⟨rfl, rfl, by rw [toUnits_zero]; exact Int.natCast_nonneg _⟩
  apply eq_infinity (Binary64.le_trans hzero h)
  rw [← Bool.not_eq_true, isFinite_iff_toUnits hx]
  have hinf : infinity.toUnits = overflowUnits := rfl
  omega

end Binary64

end PodPlacement
