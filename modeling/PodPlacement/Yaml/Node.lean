import PodPlacement.Number.Literal

/-! # YAML trees

A YAML document is a tree of scalars, sequences and mappings. A scalar keeps its source text and
whether it stood in quotes, because the same text may be read as a string, a number or nothing,
depending on who asks. `Scalar.ofPlain` says what an unquoted text stands for, and `Tag.scalar?` what a
text with a tag does. -/

namespace PodPlacement.Yaml

/-- What a scalar stands for. -/
inductive Scalar where
  /-- Nothing. -/
  | null
  /-- A truth value. -/
  | bool (value : Bool)
  /-- An integer of 64 bits, signed or unsigned. -/
  | integer (value : Int)
  /-- An integer of more than 64 and at most 128 bits, which no reader accepts. -/
  | wideInteger
  /-- A number that is not written as an integer, or an integer of more than 128 bits. -/
  | float (value : Binary64)
  /-- A string. -/
  | string (text : String)
deriving DecidableEq

namespace Scalar

/-- The value of a digit in a base of up to 16. -/
def digitValue? (base : Nat) (c : Char) : Option Nat :=
  let n := c.toNat
  let value? :=
    if 48 ≤ n ∧ n ≤ 57 then some (n - 48)
    else if 97 ≤ n ∧ n ≤ 102 then some (n - 87)
    else if 65 ≤ n ∧ n ≤ 70 then some (n - 55)
    else none
  value?.filter fun value => decide (value < base)

/-- Reads at least one digit and nothing else. -/
def natural? (base : Nat) (cs : List Char) : Option Nat :=
  if cs.isEmpty then none
  else cs.foldl (fun sofar? c => do
    let sofar ← sofar?
    let value ← digitValue? base c
    pure (base * sofar + value)) (some 0)

/-- Digits with a leading zero, after an optional sign, are a string. -/
def isZeroPadded (cs : List Char) : Bool :=
  let digits := match cs with
    | '-' :: rest | '+' :: rest => rest
    | rest => rest
  digits.length > 1 && digits.head? == some '0' && digits.all Char.isDigit

/-- Reads an unsigned integer in base 16, 8, 2 or 10. -/
def magnitude? : List Char → Option Nat
  | '0' :: 'x' :: rest => natural? 16 rest
  | '0' :: 'o' :: rest => natural? 8 rest
  | '0' :: 'b' :: rest => natural? 2 rest
  | cs => natural? 10 cs

/-- Reads an integer without or with a plus sign. -/
def nonnegative? (cs : List Char) : Option Nat :=
  if isZeroPadded cs then none
  else
    match cs with
    | '+' :: rest => magnitude? rest
    | _ => magnitude? cs

/-- Reads an integer with a minus sign, as the number behind it. -/
def negated? (cs : List Char) : Option Nat :=
  if isZeroPadded cs then none
  else
    match cs with
    | '-' :: rest => magnitude? rest
    | _ => none

/-- Reads a number that has no integer form. Infinity and NaN are written with a leading point. -/
def float? (cs : List Char) : Option Binary64 :=
  let unsigned := match cs with
    | '+' :: rest => rest
    | rest => rest
  let text := String.ofList cs
  if [".inf", ".Inf", ".INF"].contains (String.ofList unsigned) then some .infinity
  else if ["-.inf", "-.Inf", "-.INF"].contains text then some (-.infinity)
  else if [".nan", ".NaN", ".NAN"].contains text then some .nan
  else if cs.head? = some '+' ∧ (unsigned.head? = some '+' ∨ unsigned.head? = some '-') then none
  else (Binary64.ofText? unsigned).filter Binary64.isFinite

/-- The words that stand for nothing. -/
def nullWords : List String := ["~", "null", "Null", "NULL"]

/-- Reads a truth value. -/
def bool? (text : String) : Option Bool :=
  if ["true", "True", "TRUE"].contains text then some true
  else if ["false", "False", "FALSE"].contains text then some false
  else none

/-- Reads an integer of at most 128 bits. -/
def integer? (cs : List Char) : Option Scalar :=
  match nonnegative? cs, negated? cs with
  | some n, _ => if n < 2 ^ 64 then some (integer n) else if n < 2 ^ 128 then some wideInteger else none
  | none, some n =>
    if n ≤ 2 ^ 63 then some (integer (-n)) else if n ≤ 2 ^ 127 then some wideInteger else none
  | none, none => none

/-- What an unquoted text stands for: nothing, a truth value, an integer, a float or a string. -/
def ofPlain (text : String) : Scalar :=
  let cs := text.toList
  if text.isEmpty || nullWords.contains text then null
  else
    match bool? text, integer? cs with
    | some b, _ => bool b
    | none, some n => n
    | none, none =>
      -- Digits with a leading zero are a string and no float.
      match if isZeroPadded cs then none else float? cs with
      | some x => float x
      | none => string text

/-- What a text stands for; a quoted one is a string. -/
def ofSource (text : String) (quoted : Bool) : Scalar := if quoted then string text else ofPlain text

end Scalar

/-! ### Tags -/

namespace Tag

/-- The beginning of the tags that YAML itself defines. -/
def standard : String := "tag:yaml.org,2002:"

/-- The tag of nothing. -/
def null : String := standard ++ "null"

/-- The tag is local to its document: it begins with an exclamation mark. -/
def isLocal (tag : String) : Bool := tag.toList.head? == some '!'

/-- The characters without the mark in front, unless that is all there is. -/
def unmark : List Char → List Char
  | '!' :: c :: rest => c :: rest
  | cs => cs

/-- The name of a local tag, which may have been marked twice. -/
def localName (tag : String) : List Char := unmark (unmark tag.toList)

/-- What a scalar stands for that has a tag of YAML, in quotes or not. A scalar that does not fit its
tag stands for nothing at all; under every other tag it is a string. -/
def scalar? (tag text : String) : Option Scalar :=
  let cs := text.toList
  if tag = null then if Scalar.nullWords.contains text then some .null else none
  else if tag = standard ++ "bool" then (Scalar.bool? text).map .bool
  else if tag = standard ++ "int" then Scalar.integer? cs
  else if tag = standard ++ "float" then (Scalar.float? cs).map .float
  else some (.string text)

end Tag

/-- A YAML tree. -/
inductive Node where
  /-- A scalar with its source text; a quoted one is a string whatever the text. -/
  | scalar (text : String) (quoted : Bool)
  /-- A sequence. -/
  | sequence (items : List Node)
  /-- A mapping; keys may repeat, and what that means is for the reader to say. -/
  | mapping (entries : List (Node × Node))
  /-- A tree with a tag. -/
  | tagged (tag : String) (content : Node)

namespace Node

/-- The node that stands where nothing is written. -/
def empty : Node := .scalar "" false

instance : Inhabited Node := ⟨empty⟩

/-- The tree without its tag. -/
def bare : Node → Node
  | tagged _ content => content.bare
  | node => node

/-- What a scalar node stands for. Collections are no scalars, and neither is a node with a local
tag. -/
def scalar? : Node → Option Scalar
  | scalar text quoted => some (.ofSource text quoted)
  | tagged tag (scalar text _) => if Tag.isLocal tag then none else Tag.scalar? tag text
  | _ => none

/-- The text of a scalar that does not stand in quotes, whatever its tag. -/
def plainText? (node : Node) : Option String :=
  match node.bare with
  | scalar text false => some text
  | _ => none

/-- The scalar node that reads as a string: a text that would read as something else is quoted, and so
are digits with a leading zero. -/
def ofString (text : String) : Node :=
  .scalar text (Scalar.ofPlain text != .string text || Scalar.isZeroPadded text.toList)

/-- The scalar node of a natural number. -/
def ofNat (n : Nat) : Node := .scalar (toString n) false

/-- The scalar node that is spelled `null`. -/
def null : Node := .scalar "null" false

/-- The scalar node of a truth value. -/
def ofBool (b : Bool) : Node := .scalar (if b then "true" else "false") false

end Node

end PodPlacement.Yaml
