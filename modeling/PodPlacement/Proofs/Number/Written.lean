import PodPlacement.Proofs.Number.Literal
import PodPlacement.Number.Style

/-! # Written numbers read back

A decimal in positional form reads back as its magnitude, whatever its digits and places. The fewest digits that are
written for a finite double read back as that double, and so does a whole number written with places.

* `Decimal.writes_positional` — positional forms are read, without loss.
* `Magnitude.magnitude_shortest` — the digits that are chosen stand for the magnitude.
* `Binary64.exists_plainChars_eq`, `Binary64.exists_fixedChars_eq` — what is written is a sign and a positional
  form. -/

namespace PodPlacement

/-- The text consists of digits and points and stands for the magnitude. -/
def Writes (cs : List Char) (m : Magnitude) : Prop :=
  (∀ c ∈ cs, isNumberChar c = true) ∧ Binary64.ofText? cs = some (.signed false m)

/-- Digits and points stand for the magnitude of their numeral. -/
theorem writes_of_numeral {cs : List Char} {n : Numeral} (hcs : ∀ c ∈ cs, isNumberChar c = true)
    (hn : Numeral.ofText? cs = some n) : Writes cs n.magnitude := by
  refine ⟨hcs, ?_⟩
  rw [Binary64.ofText?_eq_map hcs, hn, Option.map_some]

/-- Without a power of ten a decimal is a natural number. -/
theorem Magnitude.ofDecimal_zero (n : Nat) : ofDecimal n 0 = ofNat n := by
  show round (n * 1 * unitsPerOne) 1 = ofNat n
  rw [Nat.mul_one, ofNat]

/-- Digits stand for their number. -/
theorem writes_digits {ds : List Char} (hds : ∀ c ∈ ds, c.isDigit = true) (hne : ds ≠ []) :
    Writes ds (.ofNat (Nat.ofDigitChars 10 ds 0)) := by
  have hread : Numeral.ofText? ds = some ⟨ds, [], 0⟩ := (Numeral.ofText?_digits hds).trans (if_neg hne)
  have hwrites := writes_of_numeral (fun c hc => isNumberChar_iff.2 (.inl (hds c hc))) hread
  rw [Numeral.magnitude_eq rfl, Numeral.digits, List.append_nil] at hwrites
  rwa [← Magnitude.ofDecimal_zero]

/-- The digits of a natural number stand for the double nearest to it. -/
theorem writes_toDigits (n : Nat) : Writes (Nat.toDigits 10 n) (.ofNat n) := by
  have hdigits : ∀ c ∈ Nat.toDigits 10 n, c.isDigit = true := fun _ hc =>
    Nat.isDigit_of_mem_toDigits (by decide) (by decide) hc
  have hwrites := writes_digits hdigits Nat.toDigits_ne_nil
  rwa [Nat.ofDigitChars_ten_toDigits] at hwrites

/-- Digits around a point stand for their number, with as many places as there are behind the point. -/
theorem writes_point {w r : List Char} (hw : ∀ c ∈ w, c.isDigit = true) (hr : ∀ c ∈ r, c.isDigit = true)
    (hne : r ≠ []) : Writes (w ++ '.' :: r) (.ofDecimal (Nat.ofDigitChars 10 (w ++ r) 0) (-r.length)) := by
  have hone : ¬ ('.' ∈ r ∨ (w = [] ∧ r = [])) := by
    rintro (hpoint | ⟨-, hnil⟩)
    · exact absurd (hr _ hpoint) (by decide)
    · exact hne hnil
  have hread : Numeral.ofText? (w ++ '.' :: r) = some ⟨w, r, 0⟩ :=
    (Numeral.ofText?_point hw fun c hc => isNumberChar_iff.2 (.inl (hr c hc))).trans (if_neg hone)
  have hnumber : ∀ c ∈ w ++ '.' :: r, isNumberChar c = true := by
    intro c hc
    rcases List.mem_append.1 hc with hc | hc
    · exact isNumberChar_iff.2 (.inl (hw c hc))
    · exact isNumberChar_iff.2 ((List.mem_cons.1 hc).symm.imp_left (hr c))
  have hwrites := writes_of_numeral hnumber hread
  rwa [Numeral.magnitude_eq rfl, Numeral.digits] at hwrites

namespace Decimal

/-- The digits of a decimal are digits. -/
theorem isDigit_of_mem_chars {d : Decimal} : ∀ c ∈ d.chars, c.isDigit = true := fun _ hc =>
  Nat.isDigit_of_mem_toDigits (by decide) (by decide) hc

/-- A decimal is written with at least one digit. -/
theorem chars_ne_nil (d : Decimal) : d.chars ≠ [] := Nat.toDigits_ne_nil

/-- The digits of a decimal stand for its number. -/
theorem ofDigitChars_chars (d : Decimal) : Nat.ofDigitChars 10 d.chars 0 = d.digits :=
  Nat.ofDigitChars_ten_toDigits

/-- Zeros are digits. -/
theorem isDigit_of_mem_zeros {n : Nat} : ∀ c ∈ List.replicate n '0', c.isDigit = true := fun _ hc => by
  rw [List.eq_of_mem_replicate hc]
  decide

/-- A whole decimal is written as its digits with the zeros behind them. -/
theorem writes_positional_whole (digits e : Nat) :
    Writes ((⟨digits, .ofNat e⟩ : Decimal).positional false) (⟨digits, .ofNat e⟩ : Decimal).magnitude := by
  generalize hd : (⟨digits, .ofNat e⟩ : Decimal) = d
  have htext : d.positional false = d.chars ++ List.replicate e '0' := by
    rw [← hd, positional]
    exact List.append_nil _
  have hdigits : ∀ c ∈ d.chars ++ List.replicate e '0', c.isDigit = true := fun c hc =>
    (List.mem_append.1 hc).elim (isDigit_of_mem_chars c) (isDigit_of_mem_zeros c)
  have hvalue : Nat.ofDigitChars 10 (d.chars ++ List.replicate e '0') 0 = digits * 10 ^ e := by
    rw [Nat.ofDigitChars_append, ofDigitChars_chars, Nat.ofDigitChars_replicate_zero, Nat.mul_comm, ← hd]
  have hmagnitude : d.magnitude = .ofNat (digits * 10 ^ e) := by
    rw [← hd]
    rfl
  rw [htext, hmagnitude, ← hvalue]
  exact writes_digits hdigits (by simp [d.chars_ne_nil])

/-- A decimal with places is written with zeros in front, so that there is a digit on both sides of the point. -/
theorem writes_positional_places (digits e : Nat) :
    Writes ((⟨digits, .negSucc e⟩ : Decimal).positional false) (⟨digits, .negSucc e⟩ : Decimal).magnitude := by
  generalize hd : (⟨digits, .negSucc e⟩ : Decimal) = d
  generalize hpadded : List.replicate (e + 1 + 1 - d.chars.length) '0' ++ d.chars = padded
  generalize hsplit : padded.length - (e + 1) = split
  have hdigits : ∀ c ∈ padded, c.isDigit = true := by
    rw [← hpadded]
    exact fun c hc => (List.mem_append.1 hc).elim (isDigit_of_mem_zeros c) (isDigit_of_mem_chars c)
  have hplaces : (padded.drop split).length = e + 1 := by
    have hlong : e + 1 + 1 ≤ padded.length := by
      rw [← hpadded, List.length_append, List.length_replicate]
      omega
    rw [List.length_drop]
    omega
  have htext : d.positional false = padded.take split ++ '.' :: padded.drop split := by
    rw [← hsplit, ← hpadded, ← hd, positional]
  have hvalue : Nat.ofDigitChars 10 (padded.take split ++ padded.drop split) 0 = digits := by
    rw [List.take_append_drop, ← hpadded, Nat.ofDigitChars_append, Nat.ofDigitChars_replicate_zero, Nat.mul_zero,
      ofDigitChars_chars, ← hd]
  have hmagnitude : d.magnitude = .ofDecimal digits (-(padded.drop split).length) := by
    rw [← hd, hplaces]
    rfl
  rw [htext, hmagnitude, ← hvalue]
  exact writes_point (fun c hc => hdigits c (List.mem_of_mem_take hc))
    (fun c hc => hdigits c (List.mem_of_mem_drop hc)) (List.ne_nil_of_length_eq_add_one hplaces)

/-- A decimal in positional form stands for its magnitude. -/
theorem writes_positional (d : Decimal) : Writes (d.positional false) d.magnitude := by
  obtain ⟨digits, exponent⟩ := d
  cases exponent with
  | ofNat e => exact writes_positional_whole digits e
  | negSucc e => exact writes_positional_places digits e

end Decimal

namespace Magnitude

/-- A magnitude is its own rounding. -/
theorem round_units (m : Magnitude) : round m.units 1 = m :=
  eq_of_units_eq (Binary64.units_round m.onGrid m.le_overflow)

/-- A decimal that is found reads back. -/
theorem magnitude_of_firstReadingBack {m : Magnitude} {tie : Tie} {grids : Nat} {exponent : Int} {d : Decimal}
    (h : m.firstReadingBack tie grids exponent = some d) : d.magnitude = m := by
  induction grids generalizing exponent with
  | zero => cases h
  | succ grids ih =>
    rw [firstReadingBack] at h
    split at h
    · rename_i d' hfind
      cases h
      simpa using List.find?_some hfind
    · exact ih h

/-- The exact decimal of a magnitude stands for it. -/
theorem magnitude_exactDecimal (m : Magnitude) : m.exactDecimal.magnitude = m := by
  -- The number of places is kept general, so that no power is computed.
  have hplaces (e : Nat) (he : unitsPerOne = 2 ^ e) :
      round (m.units * 5 ^ e * unitsPerOne) (10 ^ e) = m := by
    have hten : 5 ^ e * 2 ^ e = 10 ^ e := (Nat.mul_pow 5 2 e).symm
    rw [he, Nat.mul_assoc, hten]
    calc round (m.units * 10 ^ e) (10 ^ e)
        = round (m.units * 10 ^ e) (1 * 10 ^ e) := by rw [Nat.one_mul]
      _ = round m.units 1 := round_mul_right _ _ (Nat.pow_pos (by decide))
      _ = m := round_units m
  exact (ofDecimal_neg _ 1074).trans (hplaces 1074 unitsPerOne.eq_1)

/-- The digits that are chosen for a magnitude stand for it. -/
theorem magnitude_shortest (m : Magnitude) (tie : Tie) : (m.shortest tie).magnitude = m := by
  rw [shortest]
  cases h : m.firstReadingBack tie 18 (decimalLength m.exactDecimal.digits + m.exactDecimal.exponent) with
  | none => exact magnitude_exactDecimal m
  | some d => exact magnitude_of_firstReadingBack h

end Magnitude

namespace Binary64

/-- A finite double is written as its sign and a positional form of its magnitude. -/
theorem exists_plainChars_eq (s : Bool) {m : Magnitude} (hm : m.isInfinite = false) :
    ∃ d : Decimal, (signed s m).plainChars = signChars s ++ d.positional false ∧ d.magnitude = m := by
  have hwrite (d : Decimal) : d.write plainStyle = d.positional false := by
    rw [Decimal.write]
    split
    · rfl
    · rw [if_pos (by rfl)]
      rfl
  by_cases hzero : m.units = 0
  · refine ⟨⟨0, 0⟩, ?_, ?_⟩
    · rw [plainChars, writeChars, hm, if_neg Bool.false_ne_true, if_pos hzero, hwrite]
    · apply Magnitude.eq_of_units_eq
      show (Magnitude.ofDecimal 0 0).units = m.units
      rw [hzero, Magnitude.ofDecimal_zero]
      exact Int.natCast_eq_zero.1 toUnits_zero
  · refine ⟨m.shortest .up, ?_, m.magnitude_shortest .up⟩
    rw [plainChars, writeChars, hm, if_neg Bool.false_ne_true, if_neg hzero, hwrite]
    rfl

/-- A whole number with places is written as its sign and a positional form of its magnitude. -/
theorem exists_fixedChars_eq (s : Bool) {m : Magnitude} (hm : m.isInfinite = false)
    (hwhole : m.isWhole = true) {places : Nat} (hplaces : places ≠ 0) :
    ∃ d : Decimal, (signed s m).fixedChars places = signChars s ++ d.positional false ∧ d.magnitude = m := by
  refine ⟨⟨roundToEven (m.units * 10 ^ places) unitsPerOne, -places⟩, ?_, ?_⟩
  · rw [fixedChars, hm, if_neg Bool.false_ne_true, if_neg hplaces]
  · obtain ⟨k, hk⟩ := Nat.dvd_of_mod_eq_zero (beq_iff_eq.1 hwhole)
    have hscaled : roundToEven (m.units * 10 ^ places) unitsPerOne = k * 10 ^ places := by
      rw [hk, Nat.mul_assoc, roundToEven_of_mod_eq_zero unitsPerOne_pos (Nat.mul_mod_right _ _),
        Nat.mul_div_cancel_left _ unitsPerOne_pos]
    dsimp only [Decimal.magnitude]
    rw [hscaled, Magnitude.ofDecimal_neg]
    calc Magnitude.round (k * 10 ^ places * unitsPerOne) (10 ^ places)
        = .round (m.units * 10 ^ places) (1 * 10 ^ places) := by
          rw [hk, Nat.mul_right_comm, Nat.mul_comm k, Nat.one_mul]
      _ = .round m.units 1 := Magnitude.round_mul_right _ _ (Nat.pow_pos (by decide))
      _ = m := m.round_units

end Binary64

end PodPlacement
