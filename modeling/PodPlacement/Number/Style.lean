import PodPlacement.Number.Shortest

/-! # Writing a number

`Binary64.write` lays out the fewest digits that read back in a `NumberStyle`; `Binary64.fixed` writes
a given number of decimal places, rounding the exact value with ties to even. -/

namespace PodPlacement

/-- How a number is laid out. -/
structure NumberStyle where
  /-- The least power of ten of a leading digit that is still written positionally, if there is one. -/
  least? : Option Int
  /-- The greatest power of ten of a leading digit that is still written positionally, if any. -/
  greatest? : Option Int
  /-- Which of two equally short and equally near decimals is written. -/
  tie : Tie
  /-- Whole numbers in positional form end in `.0`. -/
  wholePoint : Bool
  /-- The word for NaN. -/
  nan : String
  /-- The word for infinity. -/
  infinity : String

namespace NumberStyle

/-- A number whose leading digit stands at this power of ten is written positionally. -/
def isPositional (style : NumberStyle) (leading : Int) : Bool :=
  style.least?.all (fun low => decide (low ≤ leading)) &&
    style.greatest?.all (fun high => decide (leading ≤ high))

end NumberStyle

namespace Decimal

/-- The decimal written positionally; `wholePoint` puts `.0` behind a whole number. -/
def positional (d : Decimal) (wholePoint : Bool) : List Char :=
  match d.exponent with
  | .ofNat e => d.chars ++ List.replicate e '0' ++ (if wholePoint then ['.', '0'] else [])
  | .negSucc e =>
    let places := e + 1
    let padded := List.replicate (places + 1 - d.chars.length) '0' ++ d.chars
    padded.take (padded.length - places) ++ '.' :: padded.drop (padded.length - places)

/-- The decimal written with one digit before the point and a power of ten. -/
def scientific (d : Decimal) : List Char :=
  let exponent := d.exponent + d.chars.length - 1
  let power := 'e' :: (toString exponent).toList
  match d.chars with
  | lead :: [] => lead :: power
  | lead :: rest => lead :: '.' :: rest ++ power
  | [] => power

/-- The decimal laid out in a style. -/
def write (d : Decimal) (style : NumberStyle) : List Char :=
  if d.digits = 0 then d.positional style.wholePoint
  else if style.isPositional (d.exponent + d.chars.length - 1) then d.positional style.wholePoint
  else d.scientific

end Decimal

namespace Binary64

/-- The minus sign of a negative number, the negative zero included. -/
def signChars (negative : Bool) : List Char := if negative then ['-'] else []

/-- The fewest digits that read back, laid out in a style. -/
def writeChars (style : NumberStyle) : Binary64 → List Char
  | nan => style.nan.toList
  | signed s m =>
    signChars s ++ if m.isInfinite then style.infinity.toList
      else if m.units = 0 then (⟨0, 0⟩ : Decimal).write style else (m.shortest style.tie).write style

/-- The fewest digits that read back, laid out in a style. -/
def write (style : NumberStyle) (x : Binary64) : String := String.ofList (x.writeChars style)

/-- Plain decimals: never a power of ten, and no point behind a whole number. -/
def plainStyle : NumberStyle := ⟨none, none, .up, false, "NaN", "inf"⟩

/-- The plain decimal digits of a double. -/
def plainChars (x : Binary64) : List Char := x.writeChars plainStyle

/-- The plain decimal text of a double. -/
def plain (x : Binary64) : String := x.write plainStyle

/-- Decimal digits with `places` behind the point. -/
def fixedChars (places : Nat) : Binary64 → List Char
  | nan => plainStyle.nan.toList
  | signed s m =>
    signChars s ++ if m.isInfinite then plainStyle.infinity.toList
      else
        let scaled := roundToEven (m.units * 10 ^ places) unitsPerOne
        if places = 0 then Nat.toDigits 10 scaled
        else (⟨scaled, -places⟩ : Decimal).positional false

/-- Decimal text with `places` behind the point, rounded from the exact value with ties to even. -/
def fixed (places : Nat) (x : Binary64) : String := String.ofList (x.fixedChars places)

end Binary64

end PodPlacement
