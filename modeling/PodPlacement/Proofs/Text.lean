import Mathlib.Data.List.TakeWhile
import PodPlacement.Text.Blank
import PodPlacement.Text.Letter

/-! # Blanks around a text

Trimming takes blanks off both ends of a text and nothing else, so characters that are no blanks all stay. Digits,
letters and the signs of numbers are no blanks.

* `isBlank_of_isDigit`, `isBlank_of_isLetter` — what is not a blank.
* `trimRight_append` — trimming two joined texts on the right trims the second one, unless nothing is left of it.
* `trim_eq_nil_iff` — nothing is left of blanks only.
* `filter_trim` — the other characters are all kept. -/

namespace PodPlacement

/-! ### Characters that are no blanks -/

/-- Digits are no blanks. -/
theorem isBlank_of_isDigit {c : Char} (h : c.isDigit = true) : isBlank c = false := by
  rw [Char.isDigit, Bool.and_eq_true, decide_eq_true_eq, decide_eq_true_eq] at h
  have hlow : 48 ≤ c.toNat := h.1
  have hhigh : c.toNat ≤ 57 := h.2
  simp only [isBlank, Bool.or_eq_false_iff, Bool.and_eq_false_iff, beq_eq_false_iff_ne,
    decide_eq_false_iff_not]
  omega

/-- The code points of the blanks. -/
def blankCodes : List Nat :=
  List.range' 0x9 5 ++ [0x20, 0x85, 0xA0, 0x1680] ++ List.range' 0x2000 11 ++
    [0x2028, 0x2029, 0x202F, 0x205F, 0x3000]

/-- There are no other blanks. -/
theorem toNat_mem_blankCodes {c : Char} (h : isBlank c = true) : c.toNat ∈ blankCodes := by
  simp only [isBlank, Bool.or_eq_true, Bool.and_eq_true, beq_iff_eq, decide_eq_true_eq] at h
  simp only [blankCodes, List.mem_append, List.mem_range'_1, List.mem_cons, List.not_mem_nil, or_false]
  omega

/-- Letters are no blanks. -/
theorem isBlank_of_isLetter {c : Char} (h : isLetter c = true) : isBlank c = false := by
  have hcodes : ∀ n ∈ blankCodes, isLetter (Char.ofNat n) = false := by decide +kernel
  rw [← Bool.not_eq_true]
  intro hblank
  have hletter := hcodes _ (toNat_mem_blankCodes hblank)
  rw [Char.ofNat_toNat, h] at hletter
  cases hletter

/-! ### Trimming -/

/-- Nothing is left on the left of a text exactly if it is blank. -/
theorem trimRight_eq_nil_iff {cs : List Char} : trimRight cs = [] ↔ ∀ c ∈ cs, isBlank c = true := by
  simp [trimRight, List.dropWhile_eq_nil_iff]

/-- What trimming the right end takes away is blank. -/
theorem exists_trimRight (cs : List Char) : ∃ blanks, (∀ c ∈ blanks, isBlank c = true) ∧
    cs = trimRight cs ++ blanks := by
  refine ⟨(cs.reverse.takeWhile isBlank).reverse, ?_, ?_⟩
  · intro c hc
    exact (List.mem_takeWhile_imp (List.mem_reverse.1 hc))
  · rw [trimRight, ← List.reverse_append, List.takeWhile_append_dropWhile, List.reverse_reverse]

/-- Of two joined texts the right one is trimmed, and the left one too if nothing is left of that. -/
theorem trimRight_append (d v : List Char) :
    trimRight (d ++ v) = if trimRight v = [] then trimRight d else d ++ trimRight v := by
  rw [trimRight, List.reverse_append, List.dropWhile_append]
  simp only [trimRight, List.isEmpty_iff, List.reverse_eq_nil_iff]
  split <;> simp

/-- Nothing is left of a text exactly if it is blank. -/
theorem trim_eq_nil_iff {cs : List Char} : trim cs = [] ↔ ∀ c ∈ cs, isBlank c = true := by
  rw [trim, trimRight_eq_nil_iff]
  constructor
  · intro h c hc
    rw [← List.takeWhile_append_dropWhile (p := isBlank) (l := cs), List.mem_append] at hc
    exact hc.elim List.mem_takeWhile_imp (h c)
  · intro h c hc
    exact h c ((List.dropWhile_suffix _).subset hc)

/-- Trimming keeps every character that is no blank. -/
theorem filter_trim {p : Char → Bool} (hp : ∀ c, p c = true → isBlank c = false) (cs : List Char) :
    (trim cs).filter p = cs.filter p := by
  have hnil {bs : List Char} (hbs : ∀ c ∈ bs, isBlank c = true) : bs.filter p = [] := by
    rw [List.filter_eq_nil_iff]
    intro c hc hpc
    exact Bool.false_ne_true ((hp c hpc).symm.trans (hbs c hc))
  obtain ⟨blanks, hblanks, heq⟩ := exists_trimRight (cs.dropWhile isBlank)
  calc (trim cs).filter p
      = (cs.takeWhile isBlank).filter p ++ (trim cs ++ blanks).filter p := by
        rw [hnil fun c hc => List.mem_takeWhile_imp hc, List.filter_append, hnil hblanks, List.nil_append,
          List.append_nil]
    _ = cs.filter p := by
        rw [trim, ← heq, ← List.filter_append, List.takeWhile_append_dropWhile]

/-- A text that starts with another character than a blank is only trimmed on the right. -/
theorem trim_cons {c : Char} (hc : isBlank c = false) (cs : List Char) :
    trim (c :: cs) = trimRight (c :: cs) := by
  rw [trim, List.dropWhile_cons_of_neg (by simp [hc])]

end PodPlacement
