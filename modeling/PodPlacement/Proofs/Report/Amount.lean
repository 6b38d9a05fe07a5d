import PodPlacement.Proofs.Quantity
import PodPlacement.Report.Amount

/-! # Reported amounts read back

The cells of a report are quantities again. Memory in mebibytes, whole cores and numbers of GPUs are read as what they
were written from, as long as a double holds them exactly.

* `Quantity.parse?_mebibytes`, `Quantity.parse?_cores` — what one cell is read as.
* `Resources.ofQuantities_report` — the cells in their places in a resource list. -/

namespace PodPlacement

namespace Binary64

/-- A whole number of 53 bits is whole. -/
theorem isWhole_ofNat {n : Nat} (hn : n ≤ 2 ^ 53) : (Magnitude.ofNat n).isWhole = true := by
  rw [Magnitude.isWhole, units_ofNat hn, Nat.mul_mod_left, beq_self_eq_true]

/-- The integer part of such a number is the number. -/
theorem toNatUpTo_ofNat {n limit : Nat} (hn : n ≤ 2 ^ 53) (hlimit : n ≤ limit) :
    (ofNat n).toNatUpTo limit = n := by
  show min (Magnitude.ofNat n).whole limit = n
  rw [Magnitude.whole, units_ofNat hn, Nat.mul_div_cancel _ unitsPerOne_pos, Nat.min_eq_left hlimit]

end Binary64

namespace Quantity

/-- A zero is read as zero. -/
theorem parse?_zero : parse? "0" = some (.ofNat 0) := by decide +kernel

/-- Memory is read as the number of mebibytes it was written from. -/
theorem parse?_mebibytes {m : Mebibytes} (hm : m.val ≤ 2 ^ 53) :
    parse? (Report.mebibytes m) = some (.ofNat m.val) := by
  rw [Report.mebibytes]
  split
  · rename_i hzero
    rw [hzero, parse?_zero]
  · have htext : toString m ++ "Mi" = String.ofList ([] ++ Nat.toDigits 10 m.val ++ ['M', 'i']) := by
      have hdigits : toString m = String.ofList (Nat.toDigits 10 m.val) := rfl
      rw [hdigits, List.nil_append, String.ofList_append]
    have hunit : QuantityUnit.ofLetters (unitChars [] ++ unitChars ['M', 'i']) = .mebi := by decide +kernel
    rw [htext, parse?_of_writes (writes_toDigits m.val) rfl (by decide +kernel), hunit, QuantityUnit.scale,
      Binary64.trunc, Magnitude.trunc_of_isWhole (Binary64.isWhole_ofNat hm)]
    rfl

/-- A whole number that was written with decimal places is read without its sign. -/
theorem parse?_fixed (s : Bool) {m : Magnitude} (hm : m.isInfinite = false) (hwhole : m.isWhole = true)
    {places : Nat} (hplaces : places ≠ 0) :
    parse? ((Binary64.signed s m).fixed places) = some (.signed false m) := by
  obtain ⟨d, htext, rfl⟩ := Binary64.exists_fixedChars_eq s hm hwhole hplaces
  rw [Binary64.fixed, htext]
  exact parse?_positional s d

/-- Whole cores are read as what they were written from. -/
theorem parse?_cores {n : Nat} (hn : n ≤ 2 ^ 53) : parse? (Report.cores (.ofNat n)) = some (.ofNat n) := by
  have hcount := Binary64.isCount_ofNat hn
  have hcount0 : (0 : Binary64).IsCount 0 := Binary64.isCount_ofNat (Nat.zero_le _)
  have hcount1 : (1 : Binary64).IsCount 1 := Binary64.isCount_ofNat (by decide)
  have hzero : (Binary64.ofNat n).equals 0 = true → n = 0 := fun h =>
    Nat.le_zero.1 ((hcount.le_iff_le hcount0).1 (Binary64.equals_iff.1 h).1)
  have hone : n ≠ 0 → ¬ Binary64.ofNat n < 1 := fun hne =>
    Binary64.not_lt_of_le ((hcount1.le_iff_le hcount).2 (Nat.pos_of_ne_zero hne))
  have hfinite := Binary64.isInfinite_ofNat hn
  have hwhole := Binary64.isWhole_ofNat hn
  have hfixed : (Binary64.ofNat n).isWhole = true := by
    rw [Binary64.ofNat, Binary64.isWhole, hfinite, hwhole]
    rfl
  by_cases h0 : n = 0
  · rw [h0]
    decide +kernel
  · rw [Report.cores, if_neg (mt hzero h0), if_neg fun h => hone h0 h.2, if_pos hfixed]
    exact parse?_fixed false hfinite hwhole Nat.one_ne_zero

end Quantity

namespace Resources

/-- Memory, whole cores and GPUs that were reported are read back, next to any other two quantities. -/
theorem ofQuantities_report {n : Nat} (hn : n < 2 ^ 53) (g : Gpus) (q r : Option Quantity) :
    (ofQuantities q r (some (.text (Report.mebibytes (.ofNat _ n))))).value.memory.val = n ∧
      (ofQuantities (some (.text (Report.cores (.ofNat n)))) q r).value.cpu = .ofNat n ∧
      (ofQuantities q (some (.text (Report.gpus g))) r).value.gpu = g := by
  refine ⟨?_, ?_, ?_⟩
  · have hval : (Capped.ofNat (2 ^ 64 - 1) n).val = n := by
      rw [Capped.val_ofNat]
      omega
    have hread : Quantity.parse? (Report.mebibytes (.ofNat _ n)) = some (.ofNat n) := by
      rw [Quantity.parse?_mebibytes (hval.le.trans hn.le), hval]
    rw [value_ofQuantities, Quantity.valueOrZero_text hread]
    exact Binary64.toNatUpTo_ofNat hn.le (by omega)
  · rw [value_ofQuantities, Quantity.valueOrZero_text (Quantity.parse?_cores hn.le)]
    exact Binary64.maxNum_zero_signed _
  · have hg : g.val ≤ 2 ^ 53 := g.val_le.trans (by decide)
    rw [value_ofQuantities, Report.gpus, Quantity.valueOrZero_text (Quantity.parse?_cores hg)]
    exact Capped.ext (Binary64.toNatUpTo_ofNat hg g.val_le)

/-- The largest amounts. -/
theorem ofQuantities_report_largest :
    9007199254740991 < 2 ^ 53 ∧
      (ofQuantities none none (some (.text (Report.mebibytes (.ofNat _ 9007199254740991))))).value.memory.val =
        9007199254740991 ∧
      (ofQuantities (some (.text (Report.cores (.ofNat 9007199254740991)))) none none).value.cpu =
        .ofNat 9007199254740991 ∧
      (ofQuantities none (some (.text (Report.gpus 4294967295))) none).value.gpu = 4294967295 :=
  ⟨by decide, ofQuantities_report (by decide) 4294967295 none none⟩

end Resources

end PodPlacement
