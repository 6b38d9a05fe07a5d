import Mathlib.Algebra.Order.Floor.Semifield
import Mathlib.Data.Rat.Floor
import Mathlib.Data.String.Basic
import PodPlacement.Proofs.Calendar
import PodPlacement.Proofs.Number.Nearest
import PodPlacement.Report.Clock

/-! # Clock texts order like time

An instant is counted in milliseconds, which rounds it, before its whole seconds are taken. The rounding never reaches
the next second, so the text of an instant is that of its whole seconds. Every part of the text has a fixed number of
digits, and the parts stand in the order in which they count, so later seconds have later texts.

* `roundSignificant_thousand_mul_lt` — a thousand times a number of 53 bits is not rounded to a thousand times a larger
  one.
* `wholeSeconds_eq` — the seconds of an instant are its integer part.
* `zeroPadded_append_lt` — digits up to a width compare like numbers.
* `dateTime_lt` — later seconds have later texts.
* `clock_orders` — the texts of two instants up to the end of the year 9999. -/

namespace PodPlacement

/-! ### Milliseconds -/

/-- Rounding to even exceeds a quotient by one half at most. -/
theorem two_mul_roundToEven_mul_le (num : Nat) {den : Nat} (hden : 0 < den) :
    2 * (roundToEven num den * den) ≤ 2 * num + den := by
  have hdiv := Nat.div_add_mod' num den
  have hmod := Nat.mod_lt num hden
  rw [roundToEven]
  split
  · omega
  · rw [Nat.add_mul]
    omega

/-- A thousand times a number of 53 bits is not rounded to a thousand times a larger one: the step between the products
is at most 1024 times the step between the numbers, and half of that is less than a thousand times it. -/
theorem roundSignificant_thousand_mul_lt {u g : Nat} (hu : OnGrid u) (hg : OnGrid g) (h : u < g) :
    roundSignificant (1000 * u) 1 < 1000 * g := by
  have hpos : 0 < 2 ^ (u.log2 - 52) := Nat.two_pow_pos _
  -- Both numbers are multiples of the step at the smaller one.
  have hgap : u + 2 ^ (u.log2 - 52) ≤ g := by
    have hdvd : 2 ^ (u.log2 - 52) ∣ g - u := Nat.dvd_sub ((step_dvd_step h.le).trans hg) hu
    have hle := Nat.le_of_dvd (Nat.sub_pos_of_lt h) hdvd
    omega
  -- A thousand is less than the tenth power of two, so the product has at most ten more bits.
  have hstep : 2 ^ ((1000 * u).log2 - 52) ≤ 2 ^ (u.log2 - 52) * 1024 := by
    have hlog : (1000 * u).log2 ≤ u.log2 + 10 := by
      rcases Nat.eq_zero_or_pos u with rfl | hpos
      · exact Nat.zero_le _
      · rw [← Nat.lt_succ_iff, Nat.log2_lt (by omega)]
        have hlt : u < 2 ^ (u.log2 + 1) := Nat.lt_log2_self
        rw [Nat.pow_succ] at hlt
        rw [Nat.pow_succ, Nat.pow_add]
        omega
    calc 2 ^ ((1000 * u).log2 - 52)
        ≤ 2 ^ (u.log2 - 52 + 10) := Nat.pow_le_pow_right Nat.two_pos (by omega)
      _ = 2 ^ (u.log2 - 52) * 1024 := Nat.pow_add _ _ _
  have hround := two_mul_roundToEven_mul_le (1000 * u) (Nat.two_pow_pos ((1000 * u).log2 - 52))
  rw [roundSignificant, Nat.div_one, Nat.one_mul]
  omega

namespace Magnitude

/-- The whole seconds of an instant are not changed by counting it in milliseconds. -/
theorem whole_round_thousand {m : Magnitude} {limit : Nat} (hm : m.units < limit * unitsPerOne)
    (hlimit : limit ≤ 2 ^ 43) :
    (round (1000 * m.units) 1).whole < 1000 * limit ∧ (round (1000 * m.units) 1).whole / 1000 = m.whole := by
  have hpos := Binary64.unitsPerOne_pos
  have hwhole : m.whole < limit := (Nat.div_lt_iff_lt_mul hpos).2 hm
  have hlow : m.whole * unitsPerOne ≤ m.units := Nat.div_mul_le_self _ _
  have hhigh : m.units < (m.whole + 1) * unitsPerOne := (Nat.div_lt_iff_lt_mul hpos).1 (Nat.lt_succ_self _)
  have hbelow : (round (1000 * m.units) 1).units < 1000 * (m.whole + 1) * unitsPerOne := by
    rw [Nat.mul_assoc]
    exact (Nat.min_le_left _ _).trans_lt
      (roundSignificant_thousand_mul_lt m.onGrid (Binary64.onGrid_mul_unitsPerOne (by omega)) hhigh)
  have habove : 1000 * m.whole * unitsPerOne ≤ (round (1000 * m.units) 1).units := by
    have hle : 1000 * m.whole ≤ 2 ^ 53 := by omega
    refine Nat.le_min.2 ⟨le_roundSignificant (Binary64.onGrid_mul_unitsPerOne hle) ?_,
      (Binary64.mul_unitsPerOne_lt hle).le⟩
    rw [Nat.mul_assoc]
    exact Nat.mul_le_mul_left _ hlow
  have hquotient : (round (1000 * m.units) 1).whole < 1000 * (m.whole + 1) := (Nat.div_lt_iff_lt_mul hpos).2 hbelow
  have hquotient' : 1000 * m.whole ≤ (round (1000 * m.units) 1).whole := (Nat.le_div_iff_mul_le hpos).2 habove
  omega

end Magnitude

namespace Binary64

/-- A number that is cut at zero has no sign. -/
theorem exists_maxNum_zero {x : Binary64} (hx : x.isNaN = false) : ∃ m, x.maxNum 0 = signed false m := by
  have hzero : (0 : Binary64).rank = 0 := toUnits_zero
  rw [maxNum_of_isNaN_eq_false hx rfl, hzero]
  split
  · exact ⟨_, rfl⟩
  · rename_i hrank
    cases x with
    | nan => cases hx
    | signed s m =>
      cases s with
      | false => exact ⟨m, rfl⟩
      | true => exact absurd (by simp only [rank]; omega) hrank

/-- A thousand times a finite number without sign is rounded once. -/
theorem signed_mul_thousand {m : Magnitude} (hm : m.isInfinite = false) :
    signed false m * 1000 = signed false (.round (1000 * m.units) 1) := by
  have hunits : m.units * (1000 * unitsPerOne) = 1000 * m.units * unitsPerOne := by
    rw [Nat.mul_left_comm, Nat.mul_assoc]
  show Binary64.mul (signed false m) (signed false (.ofNat 1000)) = _
  rw [Binary64.mul, hm, isInfinite_ofNat (by decide), units_ofNat (by decide), hunits]
  rw [← Magnitude.round_mul_right (1000 * m.units) 1 unitsPerOne_pos, Nat.one_mul]
  rfl

end Binary64

namespace Report

/-- The whole seconds of an instant that is not too late are its integer part, or zero before the start. -/
theorem wholeSeconds_eq {t : Seconds} {limit : Nat} (hpos : 0 < limit) (hlimit : limit ≤ 2 ^ 43)
    (ht : t < .ofNat limit) : wholeSeconds t = ⌊max t.value 0⌋₊ := by
  obtain ⟨hnum, -, hunits⟩ := Binary64.lt_iff.1 ht
  obtain ⟨m, hm⟩ := Binary64.exists_maxNum_zero hnum
  have hlt : m.units < limit * unitsPerOne := by
    have hmax := Binary64.toUnits_maxNum hnum (Binary64.isNaN_ofNat 0)
    rw [hm, Binary64.toUnits_zero, Binary64.toUnits] at hmax
    rw [(Binary64.isCount_ofNat (by omega)).2] at hunits
    have hbound := Nat.mul_pos hpos Binary64.unitsPerOne_pos
    omega
  have hfinite : m.isInfinite = false := by
    have hoverflow := Binary64.mul_unitsPerOne_lt (k := limit) (by omega)
    exact beq_eq_false_iff_ne.2 (hlt.trans hoverflow).ne
  obtain ⟨hmost, hwhole⟩ := Magnitude.whole_round_thousand hlt hlimit
  have hcap : 1000 * limit ≤ mostMilliseconds := by
    have hmost : 1000 * 2 ^ 43 ≤ mostMilliseconds := by decide
    omega
  calc wholeSeconds t
      = min (Magnitude.round (1000 * m.units) 1).whole mostMilliseconds / 1000 := by
        rw [wholeSeconds, hm, Binary64.signed_mul_thousand hfinite]
        rfl
    _ = m.whole := by rw [Nat.min_eq_left (by omega), hwhole]
    _ = ⌊max t.value 0⌋₊ := by
        rw [← Binary64.value_maxNum_zero hnum, hm, Binary64.value, Binary64.toUnits, Int.cast_natCast,
          Nat.floor_div_eq_div]
        rfl

/-! ### Digits up to a width -/

/-- Whatever follows them, texts of one length compare as they do alone. -/
theorem append_lt_append_of_lt {x y : List Char} (h : x < y) (hlength : x.length = y.length) (s t : List Char) :
    x ++ s < y ++ t := by
  induction x generalizing y with
  | nil =>
    rw [List.eq_nil_of_length_eq_zero hlength.symm] at h
    exact absurd h (List.lt_irrefl [])
  | cons a x ih =>
    cases y with
    | nil => cases hlength
    | cons b y =>
      rw [List.cons_append, List.cons_append, List.cons_lt_cons_iff]
      exact (List.cons_lt_cons_iff.1 h).imp_right fun ⟨heq, hlt⟩ => ⟨heq, ih hlt (Nat.succ_inj.1 hlength)⟩

/-- The last digits of a number, as many as a width asks for. -/
def lastDigits : (width n : Nat) → List Char
  | 0, _ => []
  | width + 1, n => lastDigits width (n / 10) ++ [Nat.digitChar (n % 10)]

/-- There are as many last digits as asked for. -/
@[simp]
theorem length_lastDigits (width n : Nat) : (lastDigits width n).length = width := by
  induction width generalizing n with
  | zero => rfl
  | succ width ih => rw [lastDigits, List.length_append, ih, List.length_singleton]

/-- The digits of a number that has no more than asked for, with zeros in front of them, are its last digits. -/
theorem toList_zeroPadded {width n : Nat} (h : n < 10 ^ (width + 1)) :
    (zeroPadded (width + 1) n).toList = lastDigits (width + 1) n := by
  induction width generalizing n with
  | zero =>
    rw [zeroPadded, String.toList_ofList, Nat.toDigits_of_lt_base h, lastDigits, Nat.mod_eq_of_lt h]
    rfl
  | succ width ih =>
    have hshorter := ih (n := n / 10) (by rw [Nat.pow_succ] at h; omega)
    rw [zeroPadded, String.toList_ofList] at hshorter ⊢
    rw [lastDigits, ← hshorter]
    rcases Nat.lt_or_ge n 10 with hlt | hge
    · -- The zero in front of a single digit is one of the padding.
      rw [Nat.toDigits_of_lt_base hlt, Nat.div_eq_of_lt hlt, Nat.mod_eq_of_lt hlt]
      simp [Nat.toDigits_of_lt_base, List.replicate_succ']
    · rw [Nat.toDigits_of_base_le (by decide) hge, List.length_append, List.length_singleton,
        Nat.add_sub_add_right, List.append_assoc]

/-- A larger digit has a larger character. -/
theorem digitChar_lt {a b : Nat} (h : a < b) (hb : b < 10) : Nat.digitChar a < Nat.digitChar b := by
  have hdigits : ∀ b < 10, ∀ a < b, Nat.digitChar a < Nat.digitChar b := by decide
  exact hdigits b hb a h

/-- Of two numbers that differ in their last digits only, the larger one has the larger digits. -/
theorem lastDigits_lt {width a b : Nat} (h : a < b) (hb : b < 10 ^ width) :
    lastDigits width a < lastDigits width b := by
  induction width generalizing a b with
  | zero =>
    rw [Nat.pow_zero] at hb
    omega
  | succ width ih =>
    rw [Nat.pow_succ] at hb
    rcases Nat.lt_or_eq_of_le (Nat.div_le_div_right (c := 10) h.le) with hlt | heq
    · exact append_lt_append_of_lt (ih hlt (by omega)) (by simp) _ _
    · have hdigit : Nat.digitChar (a % 10) < Nat.digitChar (b % 10) := digitChar_lt (by omega) (by omega)
      rw [lastDigits, lastDigits, heq]
      exact List.append_left_lt (List.cons_lt_cons_iff.2 (.inl hdigit))

/-- A number comes before what follows it: texts that begin with numbers of one width compare like the numbers, and if
these are equal, like what follows behind a separator. -/
theorem zeroPadded_append_lt {width a b : Nat} (ha : a < 10 ^ (width + 1)) (hb : b < 10 ^ (width + 1))
    (separator : String) {s t : String} (h : a < b ∨ a = b ∧ s < t) :
    zeroPadded (width + 1) a ++ (separator ++ s) < zeroPadded (width + 1) b ++ (separator ++ t) := by
  rw [String.lt_iff_toList_lt]
  simp only [String.toList_append, toList_zeroPadded ha, toList_zeroPadded hb]
  rcases h with hlt | ⟨rfl, hlt⟩
  · exact append_lt_append_of_lt (lastDigits_lt hlt hb) (by simp) _ _
  · exact List.append_left_lt (List.append_left_lt (String.lt_iff_toList_lt.1 hlt))

/-- A larger number of one width has the larger text. -/
theorem zeroPadded_lt {width a b : Nat} (h : a < b) (hb : b < 10 ^ (width + 1)) :
    zeroPadded (width + 1) a < zeroPadded (width + 1) b := by
  rw [String.lt_iff_toList_lt, toList_zeroPadded (h.trans hb), toList_zeroPadded hb]
  exact lastDigits_lt h hb

/-! ### Dates and times -/

/-- The date and time that is so many seconds after the first one. -/
def dateTime (seconds : Nat) : String :=
  date (Date.ofDay (seconds / 86400)) ++ " " ++ timeOfDay (seconds % 86400)

/-- Of two times of a day the later one has the later text. -/
theorem timeOfDay_lt {a b : Nat} (h : a < b) (hb : b < 86400) : timeOfDay a < timeOfDay b := by
  simp only [timeOfDay, String.append_assoc]
  refine zeroPadded_append_lt (by omega) (by omega) ":" ?_
  rcases Nat.lt_or_eq_of_le (Nat.div_le_div_right (c := 3600) h.le) with hhour | hhour
  · exact .inl hhour
  · refine .inr ⟨hhour, zeroPadded_append_lt (by omega) (by omega) ":" ?_⟩
    rcases Nat.lt_or_eq_of_le (Nat.div_le_div_right (c := 60) h.le) with hminute | hminute
    · exact .inl (by omega)
    · exact .inr ⟨by rw [hminute], zeroPadded_lt (by omega) (by omega)⟩

/-- Texts that begin with the dates of two days compare like the days, and on one day, like what follows the date. -/
theorem date_append_lt {a b : Nat} (ha : a < Calendar.daysBefore 10000) (hb : b < Calendar.daysBefore 10000)
    {s t : String} (h : a < b ∨ a = b ∧ s < t) :
    date (Date.ofDay a) ++ (" " ++ s) < date (Date.ofDay b) ++ (" " ++ t) := by
  have hyeara := Date.year_ofDay_lt ha
  have hyearb := Date.year_ofDay_lt hb
  obtain ⟨hmontha, hdaya⟩ := Date.proper_ofDay a
  obtain ⟨hmonthb, hdayb⟩ := Date.proper_ofDay b
  rcases h with hlt | ⟨rfl, hlt⟩
  · have hbefore := Date.before_ofDay hlt
    rw [date, date, year, year, if_pos (by omega), if_pos (by omega)]
    simp only [String.append_assoc]
    refine zeroPadded_append_lt hyeara hyearb "-" (hbefore.imp_right fun hmonth => ⟨hmonth.1, ?_⟩)
    refine zeroPadded_append_lt (by omega) (by omega) "-" (hmonth.2.imp_right fun hday => ⟨hday.1, ?_⟩)
    exact zeroPadded_append_lt (by omega) (by omega) " " (.inl hday.2)
  · rw [String.lt_iff_toList_lt] at hlt ⊢
    simp only [String.toList_append]
    exact List.append_left_lt (List.append_left_lt hlt)

/-- Later seconds have later texts, up to the end of the year 9999. -/
theorem dateTime_lt {a b : Nat} (h : a < b) (hb : b < 315537897600) : dateTime a < dateTime b := by
  have hend : Calendar.daysBefore 10000 = 3652059 := by decide
  simp only [dateTime, String.append_assoc]
  refine date_append_lt (by omega) (by omega) ?_
  rcases Nat.lt_or_eq_of_le (Nat.div_le_div_right (c := 86400) h.le) with hday | hday
  · exact .inl hday
  · exact .inr ⟨hday, timeOfDay_lt (by omega) (Nat.mod_lt b (by decide))⟩

/-! ### Clock texts -/

/-- The integer part of an instant is below a number that the instant is below. -/
theorem floor_lt_of_lt {t : Seconds} {limit : Nat} (hpos : 0 < limit) (hlimit : limit ≤ 2 ^ 43)
    (ht : t < .ofNat limit) : ⌊max t.value 0⌋₊ < limit := by
  obtain ⟨hnum, -, hunits⟩ := Binary64.lt_iff.1 ht
  rw [(Binary64.isCount_ofNat (by omega)).2] at hunits
  rw [Nat.floor_lt (le_max_right _ _), max_lt_iff, Binary64.value, div_lt_iff₀ Binary64.unitsPerOne_cast_pos]
  exact ⟨by exact_mod_cast hunits, Nat.cast_pos.2 hpos⟩

/-- Up to the end of the year 9999, the text of an instant is that of its whole seconds. -/
theorem clock_eq_dateTime {t : Seconds} (ht : t < 315537897600) : clock t = dateTime ⌊max t.value 0⌋₊ := by
  have hseconds := wholeSeconds_eq (by decide) (by decide) ht
  have hlt : ⌊max t.value 0⌋₊ < 315537897600 := floor_lt_of_lt (by decide) (by decide) ht
  have hend : Calendar.daysBefore 10000 = 3652059 := by decide
  have hyear : (Date.ofDay (⌊max t.value 0⌋₊ / 86400)).year < 10000 := Date.year_ofDay_lt (by omega)
  have hshown : (Date.ofDay (⌊max t.value 0⌋₊ / 86400)).year ≤ lastYear := hyear.le.trans (by decide)
  simp only [clock, hseconds]
  rw [if_pos hshown, dateTime]

/-- Up to the end of the year 9999, instants that are no earlier have texts that are no smaller, equal ones exactly in
one whole second: the text is that of the integer part. -/
theorem clock_orders {a b : Seconds} (hab : a ≤ b) (hb : b < 315537897600) :
    clock a ≤ clock b ∧ (clock a = clock b ↔ ⌊max a.value 0⌋₊ = ⌊max b.value 0⌋₊) ∧
      clock a = dateTime ⌊max a.value 0⌋₊ ∧ clock b = dateTime ⌊max b.value 0⌋₊ := by
  have ha : a < 315537897600 := Binary64.lt_of_le_of_lt hab hb
  have hle : ⌊max a.value 0⌋₊ ≤ ⌊max b.value 0⌋₊ := by
    obtain ⟨hnuma, hnumb, -⟩ := Binary64.le_iff.1 hab
    exact Nat.floor_mono (max_le_max_right 0 ((Binary64.value_le_iff hnuma hnumb).1 hab))
  rw [clock_eq_dateTime ha, clock_eq_dateTime hb]
  rcases Nat.lt_or_eq_of_le hle with hlt | heq
  · have htext := dateTime_lt hlt (floor_lt_of_lt (by decide) (by decide) hb)
    exact ⟨htext.le, iff_of_false htext.ne hlt.ne, rfl, rfl⟩
  · rw [heq]
    exact ⟨le_refl _, iff_of_true rfl rfl, rfl, rfl⟩

/-- The last tenth of a second of a February, and the March that follows. -/
theorem clock_orders_monthEnd :
    (5097599.9 : Seconds) ≤ 5097600 ∧ (5097600 : Seconds) < 315537897600 ∧ clock 5097599.9 ≤ clock 5097600 ∧
      (clock 5097599.9 = clock 5097600 ↔
        ⌊max (5097599.9 : Seconds).value 0⌋₊ = ⌊max (5097600 : Seconds).value 0⌋₊) ∧
      clock 5097599.9 = dateTime ⌊max (5097599.9 : Seconds).value 0⌋₊ ∧
      clock 5097600 = dateTime ⌊max (5097600 : Seconds).value 0⌋₊ := by
  have hab : (5097599.9 : Seconds) ≤ 5097600 := by decide +kernel
  have hb : (5097600 : Seconds) < 315537897600 := by decide +kernel
  exact ⟨hab, hb, clock_orders hab hb⟩

/-- In a common year February has 28 days, and nine tenths of a second are dropped. -/
example : clock 5097599.9 = "0001-02-28 23:59:59" ∧ clock 5097600 = "0001-03-01 00:00:00" := by decide +kernel

end Report

end PodPlacement
