import PodPlacement.Proofs.Number.Written
import PodPlacement.Proofs.Text
import PodPlacement.Quantity

/-! # Lenient quantities

The digits and points of a text are its number and its letters are its unit, wherever they stand. A text is read as
soon as its digits and points are a numeral, and its value is never negative: a sign is passed over like any other
character, while a bare number keeps its sign and is cut at zero later.

* `Quantity.parse?_eq` — reading sees the digits, the points and the letters of a text, and whether it is blank.
* `Quantity.parse?_lenient` — which texts are read, and as what.
* `Quantity.parse?_plain` — a number that was written as plain digits is read without its sign.
* `Resources.ofQuantities_plain` — where a number and its digits come to the same. -/

namespace PodPlacement

/-! ### Numbers without their fractions -/

namespace Magnitude

/-- Without its fractional part a magnitude is its integer part. -/
theorem units_trunc (m : Magnitude) : m.trunc.units = m.whole * unitsPerOne := by
  have hgrid : OnGrid (m.whole * unitsPerOne) := by
    rcases Nat.le_total m.whole (2 ^ 53) with hsmall | hlarge
    · exact Binary64.onGrid_mul_unitsPerOne hsmall
    · -- A number from `2 ^ 53` on has no fractional part.
      obtain ⟨e, -, hone, -⟩ := Binary64.exists_exponent
      have hle : 2 ^ (53 + (e + 1)) ≤ m.units := by
        rw [Nat.pow_add, ← hone]
        exact (Nat.mul_le_mul_right _ hlarge).trans (Nat.div_mul_le_self _ _)
      have hne : m.units ≠ 0 := (Nat.pow_pos Nat.two_pos |>.trans_le hle).ne'
      have hlog : e + 1 ≤ m.units.log2 - 52 := by
        have := (Nat.le_log2 hne).2 hle
        omega
      have hdvd : unitsPerOne ∣ m.units := by
        rw [hone]
        exact (Nat.pow_dvd_pow 2 hlog).trans m.onGrid
      rw [whole, Nat.div_mul_cancel hdvd]
      exact m.onGrid
  exact Binary64.units_round hgrid ((Nat.div_mul_le_self _ _).trans m.le_overflow)

/-- Without its fractional part a magnitude is whole. -/
theorem isWhole_trunc (m : Magnitude) : m.trunc.isWhole = true := by
  rw [isWhole, units_trunc, Nat.mul_mod_left, beq_self_eq_true]

/-- A whole magnitude has no fractional part to lose. -/
theorem trunc_of_isWhole {m : Magnitude} (h : m.isWhole = true) : m.trunc = m := by
  apply eq_of_units_eq
  rw [units_trunc, whole, Nat.div_mul_cancel (Nat.dvd_of_mod_eq_zero (beq_iff_eq.1 h))]

end Magnitude

namespace Binary64

/-- Without its fraction a number without sign has no sign, and is whole unless it is infinite. -/
theorem exists_trunc_eq {x : Binary64} (hx : ∃ m, x = signed false m) :
    ∃ n, x.trunc = signed false n ∧ (x.trunc.isWhole = true ∨ x.trunc = infinity) := by
  obtain ⟨m, rfl⟩ := hx
  refine ⟨m.trunc, rfl, ?_⟩
  rw [trunc, isWhole, m.isWhole_trunc, Bool.and_true]
  cases h : m.trunc.isInfinite with
  | false => exact .inl rfl
  | true => exact .inr (congrArg (signed false) (Magnitude.eq_of_units_eq (beq_iff_eq.1 h)))

/-- A positive whole number of 53 bits is not zero. -/
theorem units_ofNat_ne_zero {k : Nat} (hpos : 0 < k) (hk : k ≤ 2 ^ 53) : (Magnitude.ofNat k).units ≠ 0 := by
  rw [units_ofNat hk]
  exact (Nat.mul_pos hpos unitsPerOne_pos).ne'

/-- A product with such a number has no sign either. -/
theorem exists_mul_ofNat (m : Magnitude) {k : Nat} (hpos : 0 < k) (hk : k ≤ 2 ^ 53) :
    ∃ n, signed false m * ofNat k = signed false n := by
  show ∃ n, Binary64.mul (signed false m) (signed false (.ofNat k)) = _
  rw [Binary64.mul, isInfinite_ofNat hk, Bool.or_false]
  cases h : m.isInfinite with
  | false => exact ⟨_, rfl⟩
  | true =>
    have hm : m.units ≠ 0 := by
      rw [beq_iff_eq.1 h]
      exact (Nat.two_pow_pos _).ne'
    rw [if_pos rfl, if_neg (not_or.2 ⟨hm, units_ofNat_ne_zero hpos hk⟩)]
    exact ⟨_, rfl⟩

/-- A quotient by such a number has no sign either. -/
theorem exists_div_ofNat (m : Magnitude) {k : Nat} (hpos : 0 < k) (hk : k ≤ 2 ^ 53) :
    ∃ n, signed false m / ofNat k = signed false n := by
  show ∃ n, Binary64.div (signed false m) (signed false (.ofNat k)) = _
  rw [Binary64.div, isInfinite_ofNat hk, if_neg (units_ofNat_ne_zero hpos hk)]
  cases h : m.isInfinite with
  | false => exact ⟨_, rfl⟩
  | true => exact ⟨_, rfl⟩

/-- A number without sign is not negative. -/
theorem nonneg_signed (m : Magnitude) : 0 ≤ signed false m := by
  rw [le_iff, toUnits_zero]
  exact ⟨rfl, rfl, Int.natCast_nonneg _⟩

/-- Cutting at zero keeps a number without sign. -/
theorem maxNum_zero_signed (m : Magnitude) : (signed false m).maxNum 0 = signed false m :=
  (maxNum_eq_left_iff rfl (Int.natCast_nonneg _)).2 (Binary64.not_lt_of_le (nonneg_signed m))

end Binary64

/-! ### The parts of a text -/

namespace Quantity

/-- What makes up the number are digits and points. -/
theorem isNumberChar_of_mem {cs : List Char} : ∀ c ∈ numberChars cs, isNumberChar c = true := fun _ hc =>
  (List.mem_filter.1 hc).2

/-- Digits and points make up the number, and all of it. -/
theorem numberChars_eq_self {cs : List Char} (h : ∀ c ∈ cs, isNumberChar c = true) : numberChars cs = cs :=
  List.filter_eq_self.2 h

/-- The number of joined texts is joined from theirs. -/
theorem numberChars_append (cs ds : List Char) : numberChars (cs ++ ds) = numberChars cs ++ numberChars ds :=
  List.filter_append ..

/-- The unit of joined texts is joined from theirs. -/
theorem unitChars_append (cs ds : List Char) : unitChars (cs ++ ds) = unitChars cs ++ unitChars ds := by
  rw [unitChars, List.filter_append, List.map_append]
  rfl

/-- Digits and points are no letters. -/
theorem isLetter_of_isNumberChar {c : Char} (h : isNumberChar c = true) : isLetter c = false := by
  have hcodes : ∀ n ∈ List.range' 46 12, isLetter (Char.ofNat n) = false := by decide +kernel
  have hcode := hcodes _ (toNat_mem_of_isNumberChar h)
  rwa [Char.ofNat_toNat] at hcode

/-- Digits and points are no unit. -/
theorem unitChars_eq_nil {cs : List Char} (h : ∀ c ∈ cs, isNumberChar c = true) : unitChars cs = [] := by
  rw [unitChars, List.map_eq_nil_iff, List.filter_eq_nil_iff]
  intro c hc
  rw [isLetter_of_isNumberChar (h c hc)]
  exact Bool.false_ne_true

/-- Trimming keeps the number. -/
theorem numberChars_trim (cs : List Char) : numberChars (trim cs) = numberChars cs :=
  filter_trim (fun _ hc => (isNumberChar_iff.1 hc).elim isBlank_of_isDigit fun h => h ▸ rfl) cs

/-- Trimming keeps the unit. -/
theorem unitChars_trim (cs : List Char) : unitChars (trim cs) = unitChars cs := by
  rw [unitChars, filter_trim (fun _ hc => isBlank_of_isLetter hc)]
  rfl

/-- Reading sees the number and the unit of a text, and whether it is blank. -/
theorem parse?_eq (raw : String) : parse? raw = if raw.toList.all isBlank = true then some 0 else
    (Binary64.ofText? (numberChars raw.toList)).map (QuantityUnit.ofLetters (unitChars raw.toList)).scale := by
  rw [parse?]
  simp only [numberChars_trim, unitChars_trim, List.isEmpty_iff, trim_eq_nil_iff, List.all_eq_true]

/-! ### What is read -/

/-- The exact decimal value of the digits and points of a text. -/
def decimalOf (cs : List Char) : ℚ :=
  Numeral.digitsOf (numberChars cs) * 10 ^ (-Numeral.placesOf (numberChars cs) : Int)

/-- The double of the digits and points of a text. -/
def numberOf (cs : List Char) : Binary64 :=
  .ofDecimal (Numeral.digitsOf (numberChars cs)) (-Numeral.placesOf (numberChars cs))

/-- What the capital letters of a unit make of a number. -/
inductive Scales : List Char → Binary64 → Binary64 → Prop where
  /-- Thousandths. -/
  | milli (v : Binary64) : Scales ['M'] v (v / 1000)
  /-- Whole mebibytes. -/
  | mebi (v : Binary64) : Scales ['M', 'I'] v v.trunc
  /-- Gibibytes, in whole mebibytes. -/
  | gibi (v : Binary64) : Scales ['G', 'I'] v (v * 1024).trunc
  /-- Kibibytes, in whole mebibytes. -/
  | kibi (v : Binary64) : Scales ['K', 'I'] v (v / 1024).trunc
  /-- Other letters, or none. -/
  | other {letters : List Char} (v : Binary64) (h : letters ∉ [['M'], ['M', 'I'], ['G', 'I'], ['K', 'I']]) :
    Scales letters v v

/-- Letters scale a number as the unit they stand for. -/
theorem scales_scale (letters : List Char) (v : Binary64) :
    Scales letters v ((QuantityUnit.ofLetters letters).scale v) := by
  rw [QuantityUnit.ofLetters]
  split_ifs with hmilli hmebi hgibi hkibi
  · exact hmilli ▸ .milli v
  · exact hmebi ▸ .mebi v
  · exact hgibi ▸ .gibi v
  · exact hkibi ▸ .kibi v
  · exact .other v (by simp [hmilli, hmebi, hgibi, hkibi])

/-- A number without sign has none in any unit, and in the units of memory it becomes whole or infinite. -/
theorem Scales.exists_signed {letters : List Char} {m : Magnitude} {x : Binary64}
    (h : Scales letters (.signed false m) x) : ∃ n, x = .signed false n ∧
      (letters ∈ [['M', 'I'], ['G', 'I'], ['K', 'I']] → x.isWhole = true ∨ x = .infinity) := by
  cases h with
  | milli =>
    obtain ⟨n, hn⟩ := Binary64.exists_div_ofNat m (k := 1000) (by decide) (by decide)
    exact ⟨n, hn, fun hunit => absurd hunit (by decide)⟩
  | mebi =>
    obtain ⟨n, hn, hwhole⟩ := Binary64.exists_trunc_eq ⟨m, rfl⟩
    exact ⟨n, hn, fun _ => hwhole⟩
  | gibi =>
    obtain ⟨n, hn, hwhole⟩ := Binary64.exists_trunc_eq
      (Binary64.exists_mul_ofNat m (k := 1024) (by decide) (by decide))
    exact ⟨n, hn, fun _ => hwhole⟩
  | kibi =>
    obtain ⟨n, hn, hwhole⟩ := Binary64.exists_trunc_eq
      (Binary64.exists_div_ofNat m (k := 1024) (by decide) (by decide))
    exact ⟨n, hn, fun _ => hwhole⟩
  | other _ hother => exact ⟨m, rfl, fun hunit => absurd (List.mem_cons_of_mem _ hunit) hother⟩

/-- A text that is not blank is read exactly if it has a digit and at most one point. -/
theorem isSome_parse?_iff {raw : String} (h : ∃ c ∈ raw.toList, isBlank c = false) :
    (parse? raw).isSome = true ↔ (∃ c ∈ raw.toList, c.isDigit = true) ∧ raw.toList.count '.' ≤ 1 := by
  have hblank : ¬ raw.toList.all isBlank = true := by
    obtain ⟨c, hc, hblank⟩ := h
    exact fun hall => Bool.false_ne_true (hblank.symm.trans (List.all_eq_true.1 hall c hc))
  have hdigit : (∃ c ∈ raw.toList, c.isDigit = true) ↔ (numberChars raw.toList).any Char.isDigit = true := by
    simp only [List.any_eq_true, numberChars, List.mem_filter]
    exact ⟨fun ⟨c, hc, h⟩ => ⟨c, ⟨hc, by rw [h]; rfl⟩, h⟩, fun ⟨c, hc, h⟩ => ⟨c, hc.1, h⟩⟩
  have hcount : raw.toList.count '.' = (numberChars raw.toList).count '.' := (List.count_filter rfl).symm
  rw [parse?_eq, if_neg hblank, Option.isSome_map, Binary64.ofText?_eq_ite isNumberChar_of_mem, hdigit, hcount,
    Option.isSome_ite]

/-- A text that is read is its number in its unit. -/
theorem parse?_eq_some {raw : String} {x : Binary64} (h : parse? raw = some x) :
    x = (QuantityUnit.ofLetters (unitChars raw.toList)).scale (numberOf raw.toList) := by
  rw [parse?_eq, ite_eq_iff] at h
  obtain ⟨hblank, h⟩ | ⟨-, h⟩ := h
  · -- Nothing is left of blanks, and nothing stands for zero.
    have hnil : trim raw.toList = [] := trim_eq_nil_iff.2 (List.all_eq_true.1 hblank)
    cases h
    rw [numberOf, ← numberChars_trim, ← unitChars_trim, hnil]
    decide +kernel
  · rw [Binary64.ofText?_eq_ite isNumberChar_of_mem, Option.map_eq_some_iff] at h
    obtain ⟨v, hv, rfl⟩ := h
    obtain ⟨-, hv⟩ | ⟨-, hv⟩ := ite_eq_iff.1 hv
    · cases hv
      rfl
    · cases hv

/-- What a text is read as. -/
structure Reads (raw : String) (result : Option Binary64) : Prop where
  /-- Blanks alone are zero. -/
  blank : (∀ c ∈ raw.toList, isBlank c = true) → result = some 0
  /-- Any other text is read exactly if it has a digit and no second point. -/
  accepts : (∃ c ∈ raw.toList, isBlank c = false) →
    (result.isSome = true ↔ (∃ c ∈ raw.toList, c.isDigit = true) ∧ raw.toList.count '.' ≤ 1)
  /-- The result is the number of the text in the unit of the text. -/
  scales : ∀ x, result = some x → Scales (unitChars raw.toList) (numberOf raw.toList) x
  /-- The number is the double nearest to the decimal value. -/
  nearest : (numberOf raw.toList).Nearest (decimalOf raw.toList)
  /-- The result is a number and not negative. -/
  nonneg : ∀ x, result = some x → x.isNaN = false ∧ 0 ≤ x
  /-- In the units of memory it is whole or infinite. -/
  whole : ∀ x, result = some x → unitChars raw.toList ∈ [['M', 'I'], ['G', 'I'], ['K', 'I']] →
    x.isWhole = true ∨ x = .infinity

/-- Reading is lenient: a text that is not blank only needs a digit and may not have two points. What it is read as
depends on nothing but its digits and points and its letters in capitals. -/
theorem parse?_lenient : (∀ raw, Reads raw (parse? raw)) ∧
    ∀ raw other x y, parse? raw = some x → parse? other = some y →
      numberChars raw.toList = numberChars other.toList → unitChars raw.toList = unitChars other.toList →
      x = y := by
  have hscales {raw x} (hx : parse? raw = some x) :
      Scales (unitChars raw.toList) (numberOf raw.toList) x :=
    parse?_eq_some hx ▸ scales_scale _ _
  refine ⟨fun raw => ⟨?_, isSome_parse?_iff, fun x => hscales, Binary64.nearest_ofDecimal _ _, ?_, ?_⟩, ?_⟩
  · intro hblank
    rw [parse?_eq, if_pos (List.all_eq_true.2 hblank)]
  · intro x hx
    obtain ⟨n, rfl, -⟩ := (hscales hx).exists_signed
    exact ⟨rfl, Binary64.nonneg_signed n⟩
  · intro x hx
    obtain ⟨-, -, hwhole⟩ := (hscales hx).exists_signed
    exact hwhole
  · intro raw other x y hx hy hnumber hunit
    rw [parse?_eq_some hx, parse?_eq_some hy, numberOf, numberOf, hnumber, hunit]

/-- Number and unit may be mixed, and the sign is passed over. -/
example : parse? " -1G.5i" = some 1536 := by decide +kernel

/-- A text that is read counts without a notice. -/
theorem valueOrZero_text {raw : String} {x : Binary64} (h : parse? raw = some x) :
    valueOrZero (some (.text raw)) = pure x := by
  rw [valueOrZero, value?, h]

/-! ### Written numbers -/

/-- A number that is written between other characters is read, in the unit of the letters around it. -/
theorem parse?_of_writes {before cs after : List Char} {m : Magnitude} (hcs : Writes cs m)
    (hbefore : numberChars before = []) (hafter : numberChars after = []) :
    parse? (String.ofList (before ++ cs ++ after)) =
      some ((QuantityUnit.ofLetters (unitChars before ++ unitChars after)).scale (.signed false m)) := by
  obtain ⟨hchars, hread⟩ := hcs
  have hnumber : numberChars (before ++ cs ++ after) = cs := by
    rw [numberChars_append, numberChars_append, hbefore, hafter, numberChars_eq_self hchars, List.nil_append,
      List.append_nil]
  have hunit : unitChars (before ++ cs ++ after) = unitChars before ++ unitChars after := by
    rw [unitChars_append, unitChars_append, unitChars_eq_nil hchars, List.append_nil]
  -- Blanks alone are not a number.
  have hblank : ¬ (before ++ cs ++ after).all isBlank = true := by
    intro hblank
    rw [← hnumber, ← numberChars_trim, trim_eq_nil_iff.2 (List.all_eq_true.1 hblank)] at hread
    cases hread
  rw [parse?_eq, String.toList_ofList, if_neg hblank, hnumber, hunit, hread, Option.map_some]

/-- The sign of a number is neither a part of it nor a unit. -/
theorem chars_signChars (s : Bool) :
    numberChars (Binary64.signChars s) = [] ∧ unitChars (Binary64.signChars s) = [] := by
  cases s <;> decide +kernel

/-- A decimal behind a sign is read as its magnitude. -/
theorem parse?_positional (s : Bool) (d : Decimal) :
    parse? (String.ofList (Binary64.signChars s ++ d.positional false)) = some (.signed false d.magnitude) := by
  obtain ⟨hnumber, hunit⟩ := chars_signChars s
  rw [← List.append_nil (_ ++ _), parse?_of_writes d.writes_positional hnumber rfl, hunit]
  rfl

/-- A number that was written as plain digits is read without its sign. -/
theorem parse?_plain (s : Bool) {m : Magnitude} (hm : m.isInfinite = false) :
    parse? (Binary64.signed s m).plain = some (.signed false m) := by
  obtain ⟨d, htext, rfl⟩ := Binary64.exists_plainChars_eq s hm
  exact (congrArg (fun cs => parse? (String.ofList cs)) htext).trans (parse?_positional s d)

end Quantity

namespace Binary64

/-- The double without its sign. -/
def unsigned : Binary64 → Binary64
  | nan => nan
  | signed _ m => signed false m

/-- Cut at zero, a number is the same without its sign exactly if it is not negative. -/
theorem unsigned_maxNum_zero_iff {x : Binary64} (hx : x.isNaN = false) :
    x.unsigned.maxNum 0 = x.maxNum 0 ↔ 0 ≤ x := by
  cases x with
  | nan => cases hx
  | signed s m =>
    cases s with
    | false => exact iff_of_true rfl (nonneg_signed m)
    | true =>
      have hiff : 0 ≤ signed true m ↔ m.units = 0 := by
        rw [le_iff_toUnits_le rfl rfl, toUnits_zero, toUnits]
        omega
      rw [hiff, unsigned, maxNum_zero_signed]
      constructor
      · intro heq
        have hunits := congrArg toUnits heq
        rw [toUnits_maxNum rfl rfl, toUnits_zero, toUnits, toUnits] at hunits
        omega
      · intro hzero
        obtain rfl : m = .zero := Magnitude.eq_of_units_eq hzero
        decide +kernel

/-- The integer part of a number is the same without its sign exactly if the number is above minus one. -/
theorem toNatUpTo_unsigned_iff {x : Binary64} (hx : x.isNaN = false) {limit : Nat} (hlimit : 0 < limit) :
    x.unsigned.toNatUpTo limit = x.toNatUpTo limit ↔ -1 < x := by
  have hone : (-1 : Binary64).toUnits = -unitsPerOne := by
    have hcount : IsCount 1 1 := isCount_ofNat (by decide)
    rw [toUnits_neg, hcount.2, Nat.one_mul]
  have hpos := unitsPerOne_pos
  cases x with
  | nan => cases hx
  | signed s m =>
    rw [lt_iff_toUnits_lt rfl rfl, hone]
    cases s with
    | false =>
      refine iff_of_true rfl ?_
      rw [toUnits]
      omega
    | true =>
      have hwhole : m.whole = 0 ↔ m.units < unitsPerOne := Nat.div_eq_zero_iff_lt hpos
      have hcut : min m.whole limit = 0 ↔ m.whole = 0 := by omega
      show min m.whole limit = 0 ↔ _
      rw [toUnits, hcut, hwhole]
      omega

end Binary64

namespace Resources

/-- Each amount comes from its own quantity. -/
theorem value_ofQuantities (cpu gpu memory : Option Quantity) :
    (ofQuantities cpu gpu memory).value = ofAmounts (Quantity.valueOrZero cpu).value
      ⟨(Quantity.valueOrZero gpu).value.toNatUpTo (2 ^ 32 - 1), Binary64.toNatUpTo_le _ _⟩
      ⟨(Quantity.valueOrZero memory).value.toNatUpTo (2 ^ 64 - 1), Binary64.toNatUpTo_le _ _⟩ := rfl

/-- The plain digits of a finite number count as the number without its sign. Next to any other two quantities they
come to the same as the number exactly if the number is not negative, for CPU, and if it is above minus one, for GPUs
and memory. -/
theorem ofQuantities_plain {x : Binary64} (hx : x.isFinite = true) (q r : Option Quantity) :
    (Quantity.text x.plain).value? = some x.unsigned ∧
      ((ofQuantities (some (.text x.plain)) q r).value = (ofQuantities (some (.number x)) q r).value ↔ 0 ≤ x) ∧
      ((ofQuantities q (some (.text x.plain)) r).value = (ofQuantities q (some (.number x)) r).value ↔ -1 < x) ∧
      ((ofQuantities q r (some (.text x.plain))).value = (ofQuantities q r (some (.number x))).value ↔
        -1 < x) := by
  have htext : Quantity.parse? x.plain = some x.unsigned := by
    obtain ⟨s, m, rfl, hm⟩ := Binary64.isFinite_iff.1 hx
    exact Quantity.parse?_plain s hm
  have hdigits : (Quantity.valueOrZero (some (.text x.plain))).value = x.unsigned := by
    rw [Quantity.valueOrZero_text htext, Noted.value_pure]
  have hnumber : (Quantity.valueOrZero (some (.number x))).value = x := by
    rw [Quantity.valueOrZero, Quantity.value?, if_pos hx]
    rfl
  have hnan := Binary64.isNaN_of_isFinite hx
  refine ⟨htext, ?_, ?_, ?_⟩
  · rw [← Binary64.unsigned_maxNum_zero_iff hnan]
    simp only [value_ofQuantities, hdigits, hnumber, ofAmounts, mk.injEq, and_true]
  · have hlimit : 0 < 2 ^ 32 - 1 := by decide
    rw [← Binary64.toNatUpTo_unsigned_iff hnan hlimit]
    simp only [value_ofQuantities, hdigits, hnumber, ofAmounts, mk.injEq, Capped.mk.injEq, true_and, and_true]
  · have hlimit : 0 < 2 ^ 64 - 1 := by decide
    rw [← Binary64.toNatUpTo_unsigned_iff hnan hlimit]
    simp only [value_ofQuantities, hdigits, hnumber, ofAmounts, mk.injEq, Capped.mk.injEq, true_and]

/-- Minus one half comes to the same for GPUs, where both are none, and not for CPU. -/
theorem ofQuantities_plain_minusHalf :
    (-0.5 : Binary64).isFinite = true ∧
      (ofQuantities none (some (.text (-0.5 : Binary64).plain)) none).value =
        (ofQuantities none (some (.number (-0.5))) none).value ∧
      (ofQuantities (some (.text (-0.5 : Binary64).plain)) none none).value ≠
        (ofQuantities (some (.number (-0.5))) none none).value := by
  have hfinite : (-0.5 : Binary64).isFinite = true := by decide +kernel
  obtain ⟨-, hcpu, hgpu, -⟩ := ofQuantities_plain hfinite none none
  exact ⟨hfinite, hgpu.2 (by decide +kernel), mt hcpu.1 (by decide +kernel)⟩

/-- The digits of a negative number need not come to the same as the number: five cores, or none. -/
theorem ofQuantities_plain_ne_of_neg :
    (-5 : Binary64).isFinite = true ∧ (-5 : Binary64).plain = "-5" ∧
      (ofQuantities (some (.text "-5")) none none).value.cpu = 5 ∧
      (ofQuantities (some (.number (-5))) none none).value.cpu = 0 ∧
      (ofQuantities (some (.text (-5 : Binary64).plain)) none none).value ≠
        (ofQuantities (some (.number (-5))) none none).value := by
  decide +kernel

end Resources

end PodPlacement
