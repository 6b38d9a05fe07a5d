import Mathlib.Data.List.TakeWhile
import PodPlacement.Number.Literal
import PodPlacement.Proofs.Number.Nearest

/-! # Reading digits and points

A text of digits and points is a numeral exactly if it has a digit and at most one point. Its value is the natural
number that its digits stand for, moved behind the point by as many places as there are digits there.

* `Numeral.ofText?_digits`, `Numeral.ofText?_point` — the two forms that are read.
* `Numeral.isSome_ofText?_iff` — there are no others.
* `Numeral.magnitude_eq` — the value of a numeral without a power of ten.
* `Binary64.ofText?_eq_map` — digits and points are read as a numeral and as nothing else. -/

namespace PodPlacement

/-- The character is a digit or a point. -/
def isNumberChar (c : Char) : Bool := c.isDigit || c == '.'

/-- A character of a number is a digit or the point. -/
theorem isNumberChar_iff {c : Char} : isNumberChar c = true ↔ c.isDigit = true ∨ c = '.' := by
  rw [isNumberChar, Bool.or_eq_true, beq_iff_eq]

/-- The code points of digits and points lie close together. -/
theorem toNat_mem_of_isNumberChar {c : Char} (h : isNumberChar c = true) : c.toNat ∈ List.range' 46 12 := by
  rw [List.mem_range'_1]
  rcases isNumberChar_iff.1 h with hdigit | rfl
  · rw [Char.isDigit, Bool.and_eq_true, decide_eq_true_eq, decide_eq_true_eq] at hdigit
    have hlow : 48 ≤ c.toNat := hdigit.1
    have hhigh : c.toNat ≤ 57 := hdigit.2
    omega
  · decide

/-- Digits and points without a point are digits. -/
theorem isDigit_of_point_notMem {cs : List Char} (hcs : ∀ c ∈ cs, isNumberChar c = true) (hpoint : '.' ∉ cs) :
    ∀ c ∈ cs, c.isDigit = true := fun c hc =>
  (isNumberChar_iff.1 (hcs c hc)).resolve_right fun heq => hpoint (heq ▸ hc)

namespace Numeral

/-! ### What is read -/

/-- Digits without a point are read. -/
theorem ofText?_digits {cs : List Char} (hcs : ∀ c ∈ cs, c.isDigit = true) :
    ofText? cs = if cs = [] then none else some ⟨cs, [], 0⟩ := by
  have htake : cs.takeWhile Char.isDigit = cs := List.takeWhile_eq_self_iff.2 hcs
  have hdrop : cs.dropWhile Char.isDigit = [] := List.dropWhile_eq_nil_iff.2 hcs
  simp [ofText?, htake, hdrop, exponent?]

/-- Digits around a point are read, unless there are none or another point follows. -/
theorem ofText?_point {w r : List Char} (hw : ∀ c ∈ w, c.isDigit = true)
    (hr : ∀ c ∈ r, isNumberChar c = true) :
    ofText? (w ++ '.' :: r) = if '.' ∈ r ∨ (w = [] ∧ r = []) then none else some ⟨w, r, 0⟩ := by
  have htake : (w ++ '.' :: r).takeWhile Char.isDigit = w := by
    rw [List.takeWhile_append_of_pos hw, List.takeWhile_cons_of_neg (by decide), List.append_nil]
  have hdrop : (w ++ '.' :: r).dropWhile Char.isDigit = '.' :: r := by
    rw [List.dropWhile_append_of_pos hw, List.dropWhile_cons_of_neg (by decide)]
  by_cases hpoint : '.' ∈ r
  · -- What follows the fraction starts with the other point, and no power of ten does.
    obtain ⟨f, rest, rfl, hf⟩ := List.eq_append_cons_of_mem hpoint
    have hdigits : ∀ c ∈ f, c.isDigit = true :=
      isDigit_of_point_notMem (fun c hc => hr c (List.mem_append_left _ hc)) hf
    have hrest : (f ++ '.' :: rest).dropWhile Char.isDigit = '.' :: rest := by
      rw [List.dropWhile_append_of_pos hdigits, List.dropWhile_cons_of_neg (by decide)]
    have hnone : exponent? ('.' :: rest) = none := rfl
    rw [if_pos (.inl hpoint)]
    simp only [ofText?, htake, hdrop, hrest, hnone, Option.map_none, ite_self]
  · have hdigits : ∀ c ∈ r, c.isDigit = true := isDigit_of_point_notMem hr hpoint
    have htake' : r.takeWhile Char.isDigit = r := List.takeWhile_eq_self_iff.2 hdigits
    have hdrop' : r.dropWhile Char.isDigit = [] := List.dropWhile_eq_nil_iff.2 hdigits
    simp [ofText?, htake, hdrop, htake', hdrop', hpoint, exponent?]

/-- Digits and points are digits only, or digits around a first point. -/
theorem digits_or_point {cs : List Char} (hcs : ∀ c ∈ cs, isNumberChar c = true) :
    (∀ c ∈ cs, c.isDigit = true) ∨ ∃ w r, cs = w ++ '.' :: r ∧ (∀ c ∈ w, c.isDigit = true) ∧
      ∀ c ∈ r, isNumberChar c = true := by
  by_cases hpoint : '.' ∈ cs
  · obtain ⟨w, r, rfl, hw⟩ := List.eq_append_cons_of_mem hpoint
    refine .inr ⟨w, r, rfl, isDigit_of_point_notMem (fun c hc => hcs c (List.mem_append_left _ hc)) hw, ?_⟩
    exact fun c hc => hcs c (List.mem_append_right _ (List.mem_cons_of_mem _ hc))
  · exact .inl (isDigit_of_point_notMem hcs hpoint)

/-- Digits and points are a numeral exactly if there is a digit and at most one point. -/
theorem isSome_ofText?_iff {cs : List Char} (hcs : ∀ c ∈ cs, isNumberChar c = true) :
    (ofText? cs).isSome = true ↔ (∃ c ∈ cs, c.isDigit = true) ∧ cs.count '.' ≤ 1 := by
  have hcount {ds : List Char} (hds : ∀ c ∈ ds, c.isDigit = true) : ds.count '.' = 0 :=
    List.count_eq_zero.2 fun hmem => absurd (hds _ hmem) (by decide)
  rcases digits_or_point hcs with hdigits | ⟨w, r, rfl, hw, hr⟩
  · rw [ofText?_digits hdigits, hcount hdigits]
    cases cs with
    | nil => simp
    | cons c cs => simpa using .inl (hdigits c List.mem_cons_self)
  · rw [ofText?_point hw hr, List.count_append, List.count_cons_self, hcount hw]
    by_cases hpoint : '.' ∈ r
    · have hpos : 0 < r.count '.' := List.count_pos_iff.2 hpoint
      rw [if_pos (.inl hpoint)]
      simp
      omega
    · have hnone : r.count '.' = 0 := List.count_eq_zero.2 hpoint
      have hdigits : ∀ c ∈ r, c.isDigit = true := isDigit_of_point_notMem hr hpoint
      have hexists : (∃ c ∈ w ++ '.' :: r, c.isDigit = true) ↔ ¬ (w = [] ∧ r = []) := by
        constructor
        · rintro ⟨c, hc, hdigit⟩ ⟨rfl, rfl⟩
          rw [List.nil_append, List.mem_singleton] at hc
          rw [hc] at hdigit
          cases hdigit
        · intro hne
          rw [← List.append_eq_nil_iff] at hne
          obtain ⟨c, hc⟩ := List.exists_mem_of_ne_nil _ hne
          rcases List.mem_append.1 hc with hc | hc
          · exact ⟨c, List.mem_append_left _ hc, hw c hc⟩
          · exact ⟨c, List.mem_append_right _ (List.mem_cons_of_mem _ hc), hdigits c hc⟩
      rw [hexists, hnone]
      by_cases hempty : w = [] ∧ r = [] <;> simp [hpoint, hempty]

/-! ### What it stands for -/

/-- Without a power of ten, a numeral stands for its digits with as many places as there are behind the point. -/
theorem magnitude_eq {n : Numeral} (h : n.exponent = 0) :
    n.magnitude = .ofDecimal n.digits (-n.fraction.length) := by
  have hbounded : n.boundedExponent = 0 := by
    rw [boundedExponent, h]
    omega
  rw [magnitude, hbounded, Int.zero_sub]

/-- The digits of a text, read as one natural number. -/
def digitsOf (cs : List Char) : Nat := Nat.ofDigitChars 10 (cs.filter Char.isDigit) 0

/-- How many digits stand behind the first point. -/
def placesOf (cs : List Char) : Nat := ((cs.dropWhile (· ≠ '.')).filter Char.isDigit).length

/-- A numeral of digits and points has the digits and places of its text. -/
theorem magnitude_of_ofText? {cs : List Char} (hcs : ∀ c ∈ cs, isNumberChar c = true) {n : Numeral}
    (h : ofText? cs = some n) : n.magnitude = .ofDecimal (digitsOf cs) (-placesOf cs) := by
  have hfilter {ds : List Char} (hds : ∀ c ∈ ds, c.isDigit = true) : ds.filter Char.isDigit = ds :=
    List.filter_eq_self.2 hds
  have hdrop {ds : List Char} (hds : ∀ c ∈ ds, c.isDigit = true) (rest : List Char) :
      (ds ++ rest).dropWhile (· ≠ '.') = rest.dropWhile (· ≠ '.') :=
    List.dropWhile_append_of_pos fun c hc => by
      rw [decide_eq_true_eq]
      rintro rfl
      exact absurd (hds _ hc) (by decide)
  rcases digits_or_point hcs with hdigits | ⟨w, r, rfl, hw, hr⟩
  · rw [ofText?_digits hdigits, ite_eq_iff] at h
    obtain ⟨-, h⟩ | ⟨-, h⟩ := h
    · cases h
    · cases h
      have hplaces : placesOf cs = 0 := by
        rw [placesOf, ← List.append_nil cs, hdrop hdigits]
        rfl
      rw [magnitude_eq rfl, hplaces, digitsOf, hfilter hdigits, digits, List.append_nil]
      rfl
  · rw [ofText?_point hw hr, ite_eq_iff] at h
    obtain ⟨-, h⟩ | ⟨hone, h⟩ := h
    · cases h
    · cases h
      have hdigits : ∀ c ∈ r, c.isDigit = true := isDigit_of_point_notMem hr (mt .inl hone)
      have hpoint : ('.' :: r).filter Char.isDigit = r := by
        rw [List.filter_cons_of_neg (by decide), hfilter hdigits]
      rw [magnitude_eq rfl, placesOf, hdrop hw, List.dropWhile_cons_of_neg (by decide), hpoint, digitsOf,
        List.filter_append, hfilter hw, hpoint, digits]

end Numeral

namespace Binary64

/-- Digits and points are read as a numeral and as nothing else. -/
theorem ofText?_eq_map {cs : List Char} (hcs : ∀ c ∈ cs, isNumberChar c = true) :
    ofText? cs = (Numeral.ofText? cs).map fun n => signed false n.magnitude := by
  have hlower {c : Char} (hc : isNumberChar c = true) : c.toLower = c := by
    have hcodes : ∀ n ∈ List.range' 46 12, (Char.ofNat n).toLower = Char.ofNat n := by decide
    have hcode := hcodes _ (toNat_mem_of_isNumberChar hc)
    rwa [Char.ofNat_toNat] at hcode
  -- Every word for a number that is no numeral has this letter.
  have hletter : 'n' ∉ cs.map Char.toLower := by
    intro hmem
    obtain ⟨c, hc, heq⟩ := List.mem_map.1 hmem
    rw [hlower (hcs c hc)] at heq
    rw [heq] at hc
    exact absurd (hcs _ hc) (by decide)
  have hword {word : String} (hn : 'n' ∈ word.toList) : String.ofList (cs.map Char.toLower) ≠ word := by
    rintro rfl
    rw [String.toList_ofList] at hn
    exact hletter hn
  have hunsigned : ofUnsignedText? cs = (Numeral.ofText? cs).map fun n => signed false n.magnitude := by
    rw [ofUnsignedText?]
    split
    · rename_i x hx
      exact hx.symm
    · rename_i hx
      rw [hx, if_neg (not_or.2 ⟨hword (by decide), hword (by decide)⟩), if_neg (hword (by decide))]
  -- Without a sign in front, the text is read as it is.
  rw [← hunsigned, ofText?]
  · rintro r rfl
    exact absurd (hcs _ List.mem_cons_self) (by decide)
  · rintro r rfl
    exact absurd (hcs _ List.mem_cons_self) (by decide)

/-- Digits and points are read exactly if there is a digit and at most one point, as the nearest double. -/
theorem ofText?_eq_ite {cs : List Char} (hcs : ∀ c ∈ cs, isNumberChar c = true) :
    ofText? cs = if cs.any Char.isDigit = true ∧ cs.count '.' ≤ 1 then
      some (ofDecimal (Numeral.digitsOf cs) (-Numeral.placesOf cs)) else none := by
  have hiff := Numeral.isSome_ofText?_iff hcs
  rw [← List.any_eq_true] at hiff
  rw [ofText?_eq_map hcs]
  cases h : Numeral.ofText? cs with
  | none =>
    rw [h] at hiff
    rw [if_neg fun hgood => Bool.false_ne_true (hiff.2 hgood)]
    rfl
  | some n =>
    rw [h] at hiff
    rw [if_pos (hiff.1 rfl), Option.map_some, Numeral.magnitude_of_ofText? hcs h]
    rfl

end Binary64

end PodPlacement
