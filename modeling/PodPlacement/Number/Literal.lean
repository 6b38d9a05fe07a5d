import PodPlacement.Number.Binary64

/-! # Reading a number

`Binary64.ofText?` reads the written form of a number: an optional sign and then either digits with at
most one point and an optional power of ten, or one of the words for infinity and NaN. The result is
the double nearest to the exact decimal value. -/

namespace PodPlacement

/-- A decimal numeral without sign, split at its point. -/
structure Numeral where
  /-- The digits before the point. -/
  whole : List Char
  /-- The digits after the point. -/
  fraction : List Char
  /-- The power of ten it is multiplied by. -/
  exponent : Int := 0

namespace Numeral

/-- The digits of the numeral read as one natural number. -/
def digits (n : Numeral) : Nat := Nat.ofDigitChars 10 (n.whole ++ n.fraction) 0

/-- How many digits are written. -/
def length (n : Numeral) : Nat := n.whole.length + n.fraction.length

/-- The power of ten, cut where a larger one makes every nonzero numeral infinite and a smaller one
makes every numeral zero. -/
def boundedExponent (n : Numeral) : Int :=
  max (-(n.length + 400 : Int)) (min (n.length + 400) n.exponent)

/-- The magnitude nearest to the value of the numeral. -/
def magnitude (n : Numeral) : Magnitude :=
  .ofDecimal n.digits (n.boundedExponent - n.fraction.length)

/-- Reads the power of ten that may follow the digits; nothing else may. -/
def exponent? : List Char → Option Int
  | [] => some 0
  | 'e' :: rest | 'E' :: rest =>
    let (negative, digits) := match rest with
      | '-' :: r => (true, r)
      | '+' :: r => (false, r)
      | r => (false, r)
    if digits.isEmpty || !digits.all Char.isDigit then none
    else
      let n : Int := Nat.ofDigitChars 10 digits 0
      some (if negative then -n else n)
  | _ => none

/-- Reads a numeral: at least one digit, at most one point, an optional power of ten. -/
def ofText? (cs : List Char) : Option Numeral :=
  let whole := cs.takeWhile Char.isDigit
  let (fraction, rest) := match cs.dropWhile Char.isDigit with
    | '.' :: r => (r.takeWhile Char.isDigit, r.dropWhile Char.isDigit)
    | r => ([], r)
  if whole.isEmpty && fraction.isEmpty then none
  else (exponent? rest).map fun e => ⟨whole, fraction, e⟩

end Numeral

namespace Binary64

/-- Reads a number without sign. -/
def ofUnsignedText? (cs : List Char) : Option Binary64 :=
  match (Numeral.ofText? cs).map fun n => signed false n.magnitude with
  | some x => some x
  | none =>
    let word := String.ofList (cs.map Char.toLower)
    if word = "inf" ∨ word = "infinity" then some infinity
    else if word = "nan" then some nan
    else none

/-- Reads a number with an optional sign. -/
def ofText? : List Char → Option Binary64
  | '-' :: rest => (ofUnsignedText? rest).map (-·)
  | '+' :: rest => ofUnsignedText? rest
  | cs => ofUnsignedText? cs

end Binary64

end PodPlacement
