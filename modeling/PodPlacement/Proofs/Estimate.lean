import Mathlib.Data.List.Infix
import PodPlacement.Estimate
import PodPlacement.Proofs.Text

/-! # The number of epochs in a command

A token of a command gives a number of epochs if the flag occurs somewhere in it and what follows its last `=`,
blanks aside, is an integer. The last token that gives one decides. The flag may stand inside a longer token, such
as a script that a shell runs, and then the last `=` need not be its own: another option behind the flag takes its
place.

* `occursIn_iff` — the flag is looked for anywhere in a token.
* `integer64?_eq_some_iff` — what is read as an integer of 64 bits.
* `epochs_concat`, `epochs_append` — the last token that gives a number decides.
* `epochs_of_flag` — what becomes of a number that stands behind the flag, as told by what follows it.
* `exists_epochs_misread` — the number of another option may be taken for it. -/

namespace PodPlacement

namespace Estimate

/-! ### Finding the flag -/

/-- A text occurs in another one exactly if it is a part of it. -/
theorem occursIn_iff {needle cs : List Char} : occursIn needle cs = true ↔ needle <:+: cs := by
  induction cs with
  | nil => rw [occursIn, List.isEmpty_iff, List.infix_nil]
  | cons c cs ih =>
    rw [occursIn, Bool.or_eq_true, List.isPrefixOf_iff_prefix, ih, List.infix_cons_iff]

/-- What follows the last `=` is the part behind one after which there is no other. -/
theorem afterLastEquals_append (u : List Char) {v : List Char} (hv : '=' ∉ v) :
    afterLastEquals (u ++ '=' :: v) = v := by
  have hkeep : ∀ c ∈ v.reverse, decide (c ≠ '=') = true := by
    intro c hc
    rw [decide_eq_true_eq]
    rintro rfl
    exact hv (List.mem_reverse.1 hc)
  rw [afterLastEquals, List.reverse_append, List.reverse_cons, List.append_assoc,
    List.takeWhile_append_of_pos hkeep, List.singleton_append, List.takeWhile_cons_of_neg (by simp),
    List.append_nil, List.reverse_reverse]

/-- The flag ends with an equals sign. -/
theorem exists_epochsFlag_eq : ∃ name, epochsFlag = name ++ ['='] :=
  ⟨epochsFlag.dropLast, by decide +kernel⟩

/-! ### Integers -/

/-- A text of decimal digits. -/
def IsNumeral (digits : List Char) : Prop := digits ≠ [] ∧ ∀ c ∈ digits, c.isDigit = true

/-- The number fits in 64 bits. -/
def Fits (n : Int) : Prop := -2 ^ 63 ≤ n ∧ n < 2 ^ 63

/-- The text is a decimal integer that fits in 64 bits, and this is its value. -/
inductive Spells : List Char → Int → Prop where
  /-- Digits without a sign. -/
  | digits {ds : List Char} (hds : IsNumeral ds) (hfits : Fits (Nat.ofDigitChars 10 ds 0)) :
    Spells ds (Nat.ofDigitChars 10 ds 0)
  /-- Digits behind a plus sign. -/
  | plus {ds : List Char} (hds : IsNumeral ds) (hfits : Fits (Nat.ofDigitChars 10 ds 0)) :
    Spells ('+' :: ds) (Nat.ofDigitChars 10 ds 0)
  /-- Digits behind a minus sign. -/
  | minus {ds : List Char} (hds : IsNumeral ds) (hfits : Fits (-Nat.ofDigitChars 10 ds 0)) :
    Spells ('-' :: ds) (-Nat.ofDigitChars 10 ds 0)

/-- A value is taken from digits if it fits. -/
theorem ite_eq_some_iff {digits : List Char} {value n : Int} :
    (if digits.isEmpty || !digits.all Char.isDigit then none
      else if -2 ^ 63 ≤ value ∧ value < 2 ^ 63 then some value else none) = some n ↔
      IsNumeral digits ∧ Fits n ∧ n = value := by
  rw [IsNumeral, Fits, ← List.all_eq_true, ← List.isEmpty_eq_false_iff]
  cases digits.isEmpty <;> cases digits.all Char.isDigit <;> grind

/-- A minus sign is followed by digits. -/
theorem integer64?_minus {ds : List Char} {n : Int} :
    integer64? ('-' :: ds) = some n ↔ IsNumeral ds ∧ Fits n ∧ n = -Nat.ofDigitChars 10 ds 0 :=
  ite_eq_some_iff

/-- A plus sign is followed by digits. -/
theorem integer64?_plus {ds : List Char} {n : Int} :
    integer64? ('+' :: ds) = some n ↔ IsNumeral ds ∧ Fits n ∧ n = Nat.ofDigitChars 10 ds 0 :=
  ite_eq_some_iff

/-- Without a sign there are only digits. -/
theorem integer64?_unsigned {cs : List Char} {n : Int} (hminus : ∀ ds, cs ≠ '-' :: ds)
    (hplus : ∀ ds, cs ≠ '+' :: ds) :
    integer64? cs = some n ↔ IsNumeral cs ∧ Fits n ∧ n = Nat.ofDigitChars 10 cs 0 := by
  rw [← ite_eq_some_iff]
  simp only [integer64?]
  rfl

/-- An integer is read exactly where one is written. -/
theorem integer64?_eq_some_iff {cs : List Char} {n : Int} : integer64? cs = some n ↔ Spells cs n := by
  constructor
  · intro h
    by_cases hminus : ∃ ds, cs = '-' :: ds
    · obtain ⟨ds, rfl⟩ := hminus
      obtain ⟨hds, hfits, rfl⟩ := integer64?_minus.1 h
      exact .minus hds hfits
    by_cases hplus : ∃ ds, cs = '+' :: ds
    · obtain ⟨ds, rfl⟩ := hplus
      obtain ⟨hds, hfits, rfl⟩ := integer64?_plus.1 h
      exact .plus hds hfits
    obtain ⟨hds, hfits, rfl⟩ := (integer64?_unsigned (by simpa using hminus) (by simpa using hplus)).1 h
    exact .digits hds hfits
  · intro h
    cases h with
    | digits hds hfits =>
      refine (integer64?_unsigned ?_ ?_).2 ⟨hds, hfits, rfl⟩ <;>
      · rintro ds rfl
        exact absurd (hds.2 _ List.mem_cons_self) (by decide)
    | plus hds hfits => exact integer64?_plus.2 ⟨hds, hfits, rfl⟩
    | minus hds hfits => exact integer64?_minus.2 ⟨hds, hfits, rfl⟩

/-- No character of a written integer is a blank. -/
theorem Spells.isBlank_eq_false {cs : List Char} {n : Int} (h : Spells cs n) :
    ∀ c ∈ cs, isBlank c = false := by
  cases h with
  | digits hds => exact fun c hc => isBlank_of_isDigit (hds.2 c hc)
  | plus hds => exact List.forall_mem_cons.2 ⟨by decide, fun c hc => isBlank_of_isDigit (hds.2 c hc)⟩
  | minus hds => exact List.forall_mem_cons.2 ⟨by decide, fun c hc => isBlank_of_isDigit (hds.2 c hc)⟩

/-- A written integer is not empty. -/
theorem Spells.ne_nil {cs : List Char} {n : Int} (h : Spells cs n) : cs ≠ [] := by
  cases h with
  | digits hds => exact hds.1
  | plus => exact List.cons_ne_nil _ _
  | minus => exact List.cons_ne_nil _ _

/-- A written integer is trimmed already. -/
theorem Spells.trimRight_eq {cs : List Char} {n : Int} (h : Spells cs n) : trimRight cs = cs := by
  obtain ⟨blanks, hblanks, heq⟩ := exists_trimRight cs
  have hnil : blanks = [] := by
    refine List.eq_nil_iff_forall_not_mem.2 fun c hc => ?_
    have hmem : c ∈ cs := by
      rw [heq]
      exact List.mem_append_right _ hc
    exact Bool.false_ne_true ((h.isBlank_eq_false c hmem).symm.trans (hblanks c hc))
  rw [hnil, List.append_nil] at heq
  exact heq.symm

/-- A text that starts with a written integer is only trimmed on the right. -/
theorem Spells.trim_append {cs : List Char} {n : Int} (h : Spells cs n) (v : List Char) :
    trim (cs ++ v) = trimRight (cs ++ v) := by
  obtain ⟨c, cs', rfl⟩ := List.exists_cons_of_ne_nil h.ne_nil
  exact trim_cons (h.isBlank_eq_false c List.mem_cons_self) (cs' ++ v)

/-- No character of a written integer is an equals sign. -/
theorem Spells.equals_notMem {cs : List Char} {n : Int} (h : Spells cs n) : '=' ∉ cs := by
  have hdigit {ds : List Char} (hds : IsNumeral ds) : '=' ∉ ds := fun hc => absurd (hds.2 _ hc) (by decide)
  cases h with
  | digits hds => exact hdigit hds
  | plus hds => simpa using hdigit hds
  | minus hds => simpa using hdigit hds

/-! ### The last token decides -/

/-- The last token decides if it gives a number. -/
theorem epochs_concat (before : List String) (token : String) :
    epochs (before ++ [token]) = (epochsOfToken? token.toList).getD (epochs before) := by
  rw [epochs, epochs, List.filterMap_append, List.getLast?_append]
  cases h : epochsOfToken? token.toList with
  | none => simp [h]
  | some n => simp [h]

/-- Tokens without the flag do not matter. -/
theorem epochs_append {command after : List String} (h : ∀ t ∈ after, ¬ epochsFlag <:+: t.toList) :
    epochs (command ++ after) = epochs command := by
  have hnone : after.filterMap (fun t => epochsOfToken? t.toList) = [] := by
    rw [List.filterMap_eq_nil_iff]
    intro t ht
    rw [epochsOfToken?, if_neg (mt occursIn_iff.1 (h t ht))]
  rw [epochs, epochs, List.filterMap_append, hnone, List.append_nil]

/-- The last token with the flag decides, by what follows its last equals sign. -/
theorem epochs_of_last {before after : List String} {token : String} {u v : List Char}
    (htoken : token.toList = u ++ '=' :: v) (hv : '=' ∉ v) (hflag : epochsFlag <:+: token.toList)
    (hafter : ∀ t ∈ after, ¬ epochsFlag <:+: t.toList) :
    epochs (before ++ token :: after) = (integer64? (trim v)).getD (epochs before) := by
  have hsplit : before ++ token :: after = before ++ [token] ++ after := by simp
  rw [hsplit, epochs_append hafter, epochs_concat, epochsOfToken?, if_pos (occursIn_iff.2 hflag), htoken,
    afterLastEquals_append u hv]

/-! ### What follows the number -/

/-- What becomes of the number `n` behind a flag with the text `v` behind it, in a command that starts with the
tokens `before`. -/
structure FlagRead (before : List String) (v : List Char) (n result : Int) : Prop where
  /-- With blanks behind it the number counts. -/
  counts : (∀ c ∈ v, isBlank c = true) → result = n
  /-- With other text behind it, but no equals sign, the token is passed over. -/
  passedOver : '=' ∉ v → (∃ c ∈ v, isBlank c = false) → result = epochs before
  /-- An integer behind a further equals sign counts in its place. -/
  replaced : ∀ w x k, v = w ++ '=' :: x → '=' ∉ x → Spells (trim x) k → result = k
  /-- If something else is behind the last equals sign, then the token is passed over. -/
  spoilt : ∀ w x, v = w ++ '=' :: x → '=' ∉ x → (∀ k, ¬ Spells (trim x) k) → result = epochs before

/-- An integer with blanks behind it is read. -/
theorem integer64?_trim_of_blank {d v : List Char} {n : Int} (hd : Spells d n)
    (hv : ∀ c ∈ v, isBlank c = true) : integer64? (trim (d ++ v)) = some n := by
  rw [hd.trim_append, trimRight_append, if_pos (trimRight_eq_nil_iff.2 hv), hd.trimRight_eq]
  exact integer64?_eq_some_iff.2 hd

/-- An integer with a space and other text behind it is not. -/
theorem integer64?_trim_of_not_blank {d v : List Char} {n : Int} (hd : Spells d n)
    (hv : ∃ c ∈ v, isBlank c = false) : integer64? (trim (d ++ ' ' :: v)) = none := by
  have hkept : trimRight v ≠ [] := by
    obtain ⟨c, hc, hblank⟩ := hv
    intro hnil
    exact Bool.false_ne_true (hblank.symm.trans (trimRight_eq_nil_iff.1 hnil c hc))
  have hspace : trimRight (' ' :: v) = ' ' :: trimRight v := by
    rw [← List.singleton_append, trimRight_append, if_neg hkept, List.singleton_append]
  rw [hd.trim_append, trimRight_append, hspace, if_neg (List.cons_ne_nil _ _)]
  refine Option.eq_none_iff_forall_ne_some.2 fun k hk => ?_
  have hblank := (integer64?_eq_some_iff.1 hk).isBlank_eq_false ' ' (by simp)
  exact absurd hblank (by decide)

/-- The number behind the flag in the last token with one counts if only blanks follow it. Otherwise the token is
passed over, unless it holds a further equals sign: then the integer behind the last one counts, if there is one. -/
theorem epochs_of_flag {before after : List String} {token : String} {u d v : List Char} {n : Int}
    (htoken : token.toList = u ++ epochsFlag ++ d ++ v) (hd : Spells d n) (hv : v = [] ∨ ∃ w, v = ' ' :: w)
    (hafter : ∀ t ∈ after, ¬ epochsFlag <:+: t.toList) :
    FlagRead before v n (epochs (before ++ token :: after)) := by
  have hflag : epochsFlag <:+: token.toList := by
    rw [htoken, List.append_assoc]
    exact List.infix_append u epochsFlag (d ++ v)
  have hown : '=' ∉ v →
      epochs (before ++ token :: after) = (integer64? (trim (d ++ v))).getD (epochs before) := by
    intro hnone
    obtain ⟨name, hname⟩ := exists_epochsFlag_eq
    refine epochs_of_last (u := u ++ name) ?_ (by simp [hd.equals_notMem, hnone]) hflag hafter
    rw [htoken, hname]
    simp
  have hfurther : ∀ w x, v = w ++ '=' :: x → '=' ∉ x →
      epochs (before ++ token :: after) = (integer64? (trim x)).getD (epochs before) := by
    rintro w x rfl hx
    exact epochs_of_last (u := u ++ epochsFlag ++ d ++ w) (by rw [htoken]; simp) hx hflag hafter
  refine ⟨?_, ?_, ?_, ?_⟩
  · intro hblank
    have hnone : '=' ∉ v := fun hmem => absurd (hblank _ hmem) (by decide)
    rw [hown hnone, integer64?_trim_of_blank hd hblank, Option.getD_some]
  · rintro hnone ⟨c, hc, hcblank⟩
    obtain rfl | ⟨w, rfl⟩ := hv
    · exact absurd hc List.not_mem_nil
    · have hw : ∃ c ∈ w, isBlank c = false := by
        rcases List.mem_cons.1 hc with rfl | hc
        · exact absurd hcblank (by decide)
        · exact ⟨c, hc, hcblank⟩
      rw [hown hnone, integer64?_trim_of_not_blank hd hw, Option.getD_none]
  · intro w x k hsplit hx hk
    rw [hfurther w x hsplit hx, integer64?_eq_some_iff.2 hk, Option.getD_some]
  · intro w x hsplit hx hk
    have hread : integer64? (trim x) = none :=
      Option.eq_none_iff_forall_ne_some.2 fun k hread => hk k (integer64?_eq_some_iff.1 hread)
    rw [hfurther w x hsplit hx, hread, Option.getD_none]

/-- A flag in a script, with a space behind the number and options without the flag around the script. -/
theorem epochs_of_flag_script :
    FlagRead ["sh", "-c"] [' '] 5 (epochs ["sh", "-c", "python train.py --epochs=5 ", "--seed=9"]) ∧
      epochs ["sh", "-c", "python train.py --epochs=5 ", "--seed=9"] = 5 := by
  have hfive : Spells ['5'] 5 :=
    .digits ⟨List.cons_ne_nil _ _, List.forall_mem_singleton.2 rfl⟩ ⟨by decide +kernel, by decide +kernel⟩
  have hread : FlagRead ["sh", "-c"] [' '] 5
      (epochs (["sh", "-c"] ++ "python train.py --epochs=5 " :: ["--seed=9"])) :=
    epochs_of_flag (u := "python train.py ".toList) (by decide +kernel) hfive (.inr ⟨[], rfl⟩)
      (List.forall_mem_singleton.2 (mt occursIn_iff.2 (by decide +kernel)))
  exact ⟨hread, hread.counts (List.forall_mem_singleton.2 rfl)⟩

/-- The number behind the flag need not count, even in the last token with one: in a script that goes on with
another option, the number of that option is taken for it. -/
theorem exists_epochs_misread :
    "python train.py --epochs=5 --batch=32".toList =
        "python train.py ".toList ++ epochsFlag ++ ['5'] ++ " --batch=32".toList ∧
      ¬ epochsFlag <:+: "python train.py ".toList ∧ ¬ epochsFlag <:+: " --batch=32".toList ∧
      Spells ['5'] 5 ∧ epochs ["sh", "-c", "python train.py --epochs=5 --batch=32"] = 32 := by
  refine ⟨by decide +kernel, mt occursIn_iff.2 (by decide +kernel), mt occursIn_iff.2 (by decide +kernel), ?_,
    by decide +kernel⟩
  exact .digits ⟨List.cons_ne_nil _ _, List.forall_mem_singleton.2 rfl⟩ ⟨by decide +kernel, by decide +kernel⟩

end Estimate

end PodPlacement
