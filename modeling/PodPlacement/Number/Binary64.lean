import PodPlacement.Number.Rounding

/-! # Doubles

`Binary64` is the 64-bit format of IEEE 754, held exactly: a magnitude is a whole number of units of
`2 ^ -1074`, the least positive double, and infinity is the grid point `2 ^ 1024` at which rounding
overflows. Every operation computes the exact result in units and rounds it once, so order and
arithmetic are facts about integers.

* `compare` is the total order `-inf < … < -0 < 0 < … < inf < NaN`.
* `≤` and `<` are the numeric comparisons: `-0` and `0` are equal and NaN is comparable to nothing. -/

namespace PodPlacement

/-- The number of units in one. -/
def unitsPerOne : Nat := 2 ^ 1074

/-- The power of two of units at which rounding overflows. -/
def overflowExponent : Nat := 2098

/-- The number of units at which rounding overflows; it stands for infinity. -/
def overflowUnits : Nat := 2 ^ overflowExponent

/-- Infinity is a point of the grid. -/
theorem onGrid_overflowUnits : OnGrid overflowUnits := onGrid_two_pow overflowExponent

/-- The absolute value of a double that is a number: a point of the grid of 53-bit numbers. -/
structure Magnitude where
  /-- The value as a multiple of the least positive double. -/
  units : Nat
  /-- At most 53 significant bits. -/
  onGrid : OnGrid units
  /-- Nothing lies above infinity. -/
  le_overflow : units ≤ overflowUnits
deriving DecidableEq

namespace Magnitude

/-- The quotient `num / den` of units, rounded to the grid. -/
def round (num den : Nat) : Magnitude where
  units := min (roundSignificant num den) overflowUnits
  onGrid := by
    rcases Nat.le_total (roundSignificant num den) overflowUnits with h | h
    · rw [Nat.min_eq_left h]; exact onGrid_roundSignificant num den
    · rw [Nat.min_eq_right h]; exact onGrid_overflowUnits
  le_overflow := Nat.min_le_right _ _

/-- The magnitude nothing is below. -/
def zero : Magnitude := ⟨0, by decide, Nat.zero_le _⟩

/-- The magnitude nothing is above. -/
def infinity : Magnitude := ⟨overflowUnits, onGrid_overflowUnits, Nat.le_refl _⟩

/-- The magnitude is infinity. -/
def isInfinite (m : Magnitude) : Bool := m.units == overflowUnits

/-- The integer part. -/
def whole (m : Magnitude) : Nat := m.units / unitsPerOne

/-- The magnitude has no fractional part. -/
def isWhole (m : Magnitude) : Bool := m.units % unitsPerOne == 0

/-- The double nearest to a natural number. -/
def ofNat (n : Nat) : Magnitude := round (n * unitsPerOne) 1

/-- The magnitude without its fractional part. -/
def trunc (m : Magnitude) : Magnitude := ofNat m.whole

/-- The magnitude nearest to `digits * 10 ^ exponent`. -/
def ofDecimal (digits : Nat) : Int → Magnitude
  | .ofNat e => round (digits * 10 ^ e * unitsPerOne) 1
  | .negSucc e => round (digits * unitsPerOne) (10 ^ (e + 1))

end Magnitude

/-- A number of the IEEE 754 binary64 format; all NaNs are one. -/
inductive Binary64 where
  /-- Not a number. -/
  | nan
  /-- A number, infinities and the two zeros among them. -/
  | signed (negative : Bool) (magnitude : Magnitude)
deriving DecidableEq

namespace Binary64

/-- Zero with a sign. -/
def signedZero (negative : Bool) : Binary64 := signed negative .zero

/-- Infinity with a sign. -/
def signedInfinity (negative : Bool) : Binary64 := signed negative .infinity

/-- Positive zero. -/
def zero : Binary64 := signedZero false

/-- Positive infinity. -/
def infinity : Binary64 := signedInfinity false

/-- The double nearest to a natural number. -/
def ofNat (n : Nat) : Binary64 := signed false (.ofNat n)

/-- The double nearest to an integer. -/
def ofInt (n : Int) : Binary64 := signed (decide (n < 0)) (.ofNat n.natAbs)

/-- The double nearest to `digits * 10 ^ exponent`. -/
def ofDecimal (digits : Nat) (exponent : Int) : Binary64 := signed false (.ofDecimal digits exponent)

instance : Inhabited Binary64 := ⟨zero⟩

instance (n : Nat) : OfNat Binary64 n := ⟨ofNat n⟩

instance : OfScientific Binary64 :=
  ⟨fun digits negative places => ofDecimal digits (if negative then -places else places)⟩

/-- The double is not a number. -/
def isNaN : Binary64 → Bool
  | nan => true
  | signed _ _ => false

/-- The double is neither infinite nor NaN. -/
def isFinite : Binary64 → Bool
  | nan => false
  | signed _ m => !m.isInfinite

/-- The signed number of units, zero for NaN. -/
def toUnits : Binary64 → Int
  | nan => 0
  | signed true m => -m.units
  | signed false m => m.units

/-! ### Order -/

/-- The place of a double in the total order: negative zero is just below zero and NaN is on top. -/
def rank : Binary64 → Int
  | nan => overflowUnits + 1
  | signed true m => -m.units - 1
  | signed false m => m.units

instance : Ord Binary64 := ⟨fun a b => compare a.rank b.rank⟩

/-- Numeric comparison: false as soon as one side is NaN. -/
protected def le : Binary64 → Binary64 → Bool
  | signed s m, signed t n => decide ((signed s m).toUnits ≤ (signed t n).toUnits)
  | _, _ => false

/-- Strict numeric comparison: false as soon as one side is NaN. -/
protected def lt : Binary64 → Binary64 → Bool
  | signed s m, signed t n => decide ((signed s m).toUnits < (signed t n).toUnits)
  | _, _ => false

instance : LE Binary64 := ⟨fun a b => a.le b = true⟩

instance : LT Binary64 := ⟨fun a b => a.lt b = true⟩

instance (a b : Binary64) : Decidable (a ≤ b) := inferInstanceAs (Decidable (a.le b = true))

instance (a b : Binary64) : Decidable (a < b) := inferInstanceAs (Decidable (a.lt b = true))

/-- Numeric equality: the two zeros are equal, NaN differs from itself. -/
def equals (a b : Binary64) : Bool := a.le b && b.le a

/-- The larger of two doubles; a NaN gives way to the other one. -/
def maxNum : Binary64 → Binary64 → Binary64
  | nan, b => b
  | a, nan => a
  | a, b => if a.rank ≤ b.rank then b else a

/-- The smaller of two doubles; a NaN gives way to the other one. -/
def minNum : Binary64 → Binary64 → Binary64
  | nan, b => b
  | a, nan => a
  | a, b => if a.rank ≤ b.rank then a else b

/-! ### Arithmetic -/

/-- The double nearest to a signed number of units; a zero takes the given sign. -/
def ofUnits (zeroSign : Bool) (units : Int) : Binary64 :=
  if units = 0 then signedZero zeroSign else signed (decide (units < 0)) (.round units.natAbs 1)

/-- The opposite sign. -/
protected def neg : Binary64 → Binary64
  | nan => nan
  | signed s m => signed (!s) m

/-- The sum, rounded once. Opposite infinities have none. -/
protected def add : Binary64 → Binary64 → Binary64
  | signed s m, signed t n =>
    if m.isInfinite then
      if n.isInfinite && s != t then nan else signed s m
    else if n.isInfinite then signed t n
    else ofUnits (s && t) ((signed s m).toUnits + (signed t n).toUnits)
  | _, _ => nan

/-- The product, rounded once. Zero times infinity is none. -/
protected def mul : Binary64 → Binary64 → Binary64
  | signed s m, signed t n =>
    if m.isInfinite || n.isInfinite then
      if m.units = 0 ∨ n.units = 0 then nan else signedInfinity (s != t)
    else signed (s != t) (.round (m.units * n.units) unitsPerOne)
  | _, _ => nan

/-- The quotient, rounded once. Zero by zero and infinity by infinity are none. -/
protected def div : Binary64 → Binary64 → Binary64
  | signed s m, signed t n =>
    if m.isInfinite then
      if n.isInfinite then nan else signedInfinity (s != t)
    else if n.isInfinite then signedZero (s != t)
    else if n.units = 0 then
      if m.units = 0 then nan else signedInfinity (s != t)
    else signed (s != t) (.round (m.units * unitsPerOne) n.units)
  | _, _ => nan

instance : Neg Binary64 := ⟨Binary64.neg⟩

instance : Add Binary64 := ⟨Binary64.add⟩

instance : Sub Binary64 := ⟨fun a b => a + -b⟩

instance : Mul Binary64 := ⟨Binary64.mul⟩

instance : Div Binary64 := ⟨Binary64.div⟩

/-- The sum of a list from the left, starting at zero. -/
def sum (xs : List Binary64) : Binary64 := xs.foldl (· + ·) 0

/-! ### Whole numbers -/

/-- The double without its fractional part; the sign stays. -/
def trunc : Binary64 → Binary64
  | nan => nan
  | signed s m => signed s m.trunc

/-- The double is a whole number. Infinities and NaN are none. -/
def isWhole : Binary64 → Bool
  | nan => false
  | signed _ m => !m.isInfinite && m.isWhole

/-- The integer part, cut to the natural numbers up to `limit`; NaN gives zero. -/
def toNatUpTo (limit : Nat) : Binary64 → Nat
  | signed false m => min m.whole limit
  | _ => 0

/-- The cut integer part is within the limit. -/
theorem toNatUpTo_le (limit : Nat) (x : Binary64) : x.toNatUpTo limit ≤ limit := by
  unfold toNatUpTo
  split
  · exact Nat.min_le_right _ _
  · exact Nat.zero_le _

end Binary64

end PodPlacement
