import PodPlacement.Number.Literal
import PodPlacement.Notice
import PodPlacement.Resources
import PodPlacement.Text.Blank
import PodPlacement.Text.Letter

/-! # Quantities

A resource quantity as a manifest writes it: a bare number, or a text such as `800m` or `4Gi`. Reading
is lenient. The digits and points of the text are its number, its letters are its unit, and everything
else is passed over; what still cannot be read counts as zero and leaves a notice. -/

namespace PodPlacement

/-- A quantity as written. -/
inductive Quantity where
  /-- A quoted or unit-bearing text. -/
  | text (raw : String)
  /-- A bare number. -/
  | number (value : Binary64)
deriving DecidableEq

/-- What the letters of a quantity do to its number. -/
inductive QuantityUnit where
  /-- No unit, or an unknown one: the number as it is. -/
  | one
  /-- Thousandths. -/
  | milli
  /-- Whole mebibytes. -/
  | mebi
  /-- Gibibytes, in whole mebibytes. -/
  | gibi
  /-- Kibibytes, in whole mebibytes. -/
  | kibi
deriving DecidableEq

namespace QuantityUnit

/-- The unit that capital letters stand for. -/
def ofLetters (letters : List Char) : QuantityUnit :=
  if letters = ['M'] then milli
  else if letters = ['M', 'I'] then mebi
  else if letters = ['G', 'I'] then gibi
  else if letters = ['K', 'I'] then kibi
  else one

/-- The number in the unit that resources are counted in. -/
def scale (x : Binary64) : QuantityUnit → Binary64
  | one => x
  | milli => x / 1000
  | mebi => x.trunc
  | gibi => (x * 1024).trunc
  | kibi => (x / 1024).trunc

end QuantityUnit

namespace Quantity

/-- The characters of a quantity that make up its number. -/
def numberChars (raw : List Char) : List Char := raw.filter fun c => c.isDigit || c == '.'

/-- The characters of a quantity that make up its unit, in capitals. -/
def unitChars (raw : List Char) : List Char := (raw.filter isLetter).map Char.toUpper

/-- Reads a quantity. A blank text is zero; otherwise there must be a number in it. -/
def parse? (raw : String) : Option Binary64 :=
  let trimmed := trim raw.toList
  -- What is not written is zero, but a unit without a number is malformed.
  if trimmed.isEmpty then some 0
  else
    (Binary64.ofText? (numberChars trimmed)).map fun x =>
      (QuantityUnit.ofLetters (unitChars trimmed)).scale x

/-- The value of a quantity, if it has a finite one. A text may overflow to infinity. -/
def value? : Quantity → Option Binary64
  | text raw => parse? raw
  | number x => if x.isFinite then some x else none

/-- The value of an optional quantity. A missing one is zero, a malformed one is zero with a notice. -/
def valueOrZero : Option Quantity → Noted Binary64
  | none => pure 0
  | some q =>
    match q.value? with
    | some x => pure x
    | none => do
      Noted.note .malformedQuantity
      pure 0

end Quantity

namespace Resources

/-- Resources from optional quantities; GPU and memory lose their fractions. -/
def ofQuantities (cpu gpu memory : Option Quantity) : Noted Resources := do
  let cpu ← Quantity.valueOrZero cpu
  let gpu ← Quantity.valueOrZero gpu
  let memory ← Quantity.valueOrZero memory
  pure (ofAmounts cpu ⟨gpu.toNatUpTo (2 ^ 32 - 1), gpu.toNatUpTo_le _⟩
    ⟨memory.toNatUpTo (2 ^ 64 - 1), memory.toNatUpTo_le _⟩)

end Resources

end PodPlacement
