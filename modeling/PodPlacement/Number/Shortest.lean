import PodPlacement.Number.Binary64

/-! # The fewest digits that read back

`Magnitude.shortest` is the decimal with the fewest digits that rounds back to a given magnitude, and
of those the one nearest to it; a `Tie` decides between two equally near ones. The decimals with `n`
digits form a grid, and only the two neighbours of the magnitude on it have to be tried. -/

namespace PodPlacement

/-- The decimal `digits * 10 ^ exponent`. -/
structure Decimal where
  /-- The digits as one natural number. -/
  digits : Nat
  /-- The power of ten the last digit stands at. -/
  exponent : Int
deriving DecidableEq

/-- Which of two equally near decimals is taken. -/
inductive Tie where
  /-- The larger one. -/
  | up
  /-- The one whose last digit is even. -/
  | toEven
deriving DecidableEq

namespace Decimal

/-- The digits from the first to the last. -/
def chars (d : Decimal) : List Char := Nat.toDigits 10 d.digits

/-- The magnitude nearest to the decimal. -/
def magnitude (d : Decimal) : Magnitude := .ofDecimal d.digits d.exponent

end Decimal

/-- How many decimal digits a natural number below `10 ^ 4000` has. -/
def decimalLength (n : Nat) : Nat :=
  let low := n.log2 * 1233 / 4096
  if n < 10 ^ (low + 1) then low + 1 else low + 2

namespace Magnitude

/-- The exact decimal value: a power of two in the denominator is a power of five in the numerator. -/
def exactDecimal (m : Magnitude) : Decimal := ⟨m.units * 5 ^ 1074, -1074⟩

/-- The magnitude counted in units of `10 ^ exponent`, as a fraction. -/
def scaled (m : Magnitude) : Int → Nat × Nat
  | .ofNat e => (m.units, unitsPerOne * 10 ^ e)
  | .negSucc e => (m.units * 10 ^ (e + 1), unitsPerOne)

/-- The two multiples of `10 ^ exponent` around the magnitude, the nearer one first. -/
def neighbours (m : Magnitude) (tie : Tie) (exponent : Int) : List Decimal :=
  let (num, den) := m.scaled exponent
  let below : Decimal := ⟨num / den, exponent⟩
  let above : Decimal := ⟨num / den + 1, exponent⟩
  let rest := 2 * (num % den)
  if rest < den ∨ (rest = den ∧ tie = .toEven ∧ below.digits % 2 = 0) then [below, above]
  else [above, below]

/-- The first decimal that reads back, on grids that get finer by one digit at a time. -/
def firstReadingBack (m : Magnitude) (tie : Tie) : (grids : Nat) → (exponent : Int) → Option Decimal
  | 0, _ => none
  | grids + 1, exponent =>
    match (m.neighbours tie exponent).find? fun d => d.magnitude = m with
    | some d => some d
    | none => m.firstReadingBack tie grids (exponent - 1)

/-- The fewest digits that read back; 17 always suffice. The coarsest grid is that of the power of ten
above the magnitude, which may itself read back. -/
def shortest (m : Magnitude) (tie : Tie) : Decimal :=
  let exact := m.exactDecimal
  let above : Int := decimalLength exact.digits + exact.exponent
  (m.firstReadingBack tie 18 above).getD exact

end Magnitude

end PodPlacement
