import PodPlacement.Yaml.Cursor
import PodPlacement.Yaml.Node

/-! # Properties of nodes and directives

In front of a node may stand an anchor, which gives it a name, and a tag, which says what it is. A tag
is written with a handle that stands for the beginning of its name; which handles there are is said by
directives in front of the document. -/

namespace PodPlacement.Yaml

/-- What is said in front of a document. -/
inductive Directive where
  /-- The version of YAML. -/
  | version
  /-- A handle and the beginning of a tag that it stands for. -/
  | handle (name beginning : String)
deriving DecidableEq

/-- The handles of every document: none, the one for local tags, and the one for tags of YAML. -/
def standardHandles : List (String × String) := [("", ""), ("!", "!"), ("!!", Tag.standard)]

/-- The handles that directives speak of. The version and each handle may be said once. -/
def Directive.handles? : List Directive → Option (List (String × String))
  | [] => some []
  | .version :: rest => if rest.contains .version then none else handles? rest
  | .handle name beginning :: rest => do
    let handles ← handles? rest
    if handles.any fun h => h.1 = name then none else some ((name, beginning) :: handles)

namespace Lexer

/-- The name of an anchor behind its mark. -/
def anchorName? (c : Cursor) : Option (String × Cursor) :=
  let name := c.rest.takeWhile isNameChar
  let next := c.skipMany name.length
  let ends := next.rest.head?.all fun ch => isBlankOrBreak ch || "?:,]\x7d%@`".toList.contains ch
  if !name.isEmpty && ends then some (String.ofList name, next) else none

/-! ### Tags -/

/-- The character can stand in a tag. Inside of angle brackets there are three more. -/
def isTagChar (bracketed : Bool) (c : Char) : Bool :=
  isNameChar c || ";/?:@&=+$.%!~*'()".toList.contains c || (bracketed && ",[]".toList.contains c)

/-- The bytes of a text in which a percent sign and two digits stand for a byte. -/
def percentBytes? : List Char → Option (List UInt8)
  | [] => some []
  | '%' :: high :: low :: rest => do
    let byte ← Scalar.natural? 16 [high, low]
    (percentBytes? rest).map (byte.toUInt8 :: ·)
  | '%' :: _ => none
  | c :: rest => (percentBytes? rest).map (c.toNat.toUInt8 :: ·)

/-- A part of a tag. -/
def tagPart? (bracketed : Bool) (c : Cursor) : Option (String × Cursor) := do
  let chars := c.rest.takeWhile (isTagChar bracketed)
  let bytes ← percentBytes? chars
  let text ← String.fromUTF8? bytes.toByteArray
  pure (text, c.skipMany chars.length)

/-- The word of a handle between its marks. -/
def handleWord (c : Cursor) : List Char := (c.rest.drop 1).takeWhile isNameChar

/-- A tag as a handle and the rest of its name: in angle brackets, behind a handle with two marks, or
behind a single mark. A single mark by itself is a tag as well. -/
def tag? (inFlow : Bool) (c : Cursor) : Option (String × String × Cursor) := do
  let (handle, name, next) ←
    if (c.rest.drop 1).head? = some '<' then do
      let (name, next) ← tagPart? true (c.skipMany 2)
      if name.isEmpty || next.rest.head? != some '>' then none else pure ("", name, next.skip)
    else do
      let word := handleWord c
      let next := c.skipMany (1 + word.length)
      if next.rest.head? = some '!' then do
        let (name, next) ← tagPart? false next.skip
        if name.isEmpty then none else pure (String.ofList ('!' :: word ++ ['!']), name, next)
      else do
        let (part, next) ← tagPart? false next
        let name := String.ofList word ++ part
        pure (if name.isEmpty then ("", "!", next) else ("!", name, next))
  if (inFlow && next.rest.head? == some ',') || next.isBlankAt 0 then pure (handle, name, next) else none

/-! ### Directives -/

/-- A number of at most nine digits. -/
def shortNumber? (c : Cursor) : Option (Nat × Cursor) :=
  let digits := c.rest.takeWhile Char.isDigit
  if digits.length ≤ 9 then (Scalar.natural? 10 digits).map (·, c.skipMany digits.length) else none

/-- The version of YAML, which must be 1.1 or 1.2. -/
def version? (c : Cursor) : Option (Directive × Cursor) := do
  let (major, next) ← shortNumber? c.skipInline
  if next.rest.head? != some '.' then none
  else
    let (minor, next) ← shortNumber? next.skip
    if major = 1 ∧ (minor = 1 ∨ minor = 2) then pure (.version, next) else none

/-- A handle and what it stands for. -/
def handle? (c : Cursor) : Option (Directive × Cursor) := do
  let c := c.skipInline
  if c.rest.head? != some '!' then none
  else
    let word := handleWord c
    let next := c.skipMany (1 + word.length)
    let isClosed := next.rest.head? == some '!'
    let handle := if isClosed then '!' :: word ++ ['!'] else ['!']
    let next := if isClosed then next.skip else next
    if (!isClosed && !word.isEmpty) || next.skipInline.column == next.column then none
    else
      let (beginning, next) ← tagPart? true next.skipInline
      if beginning.isEmpty || !next.isBlankAt 0 then none
      else pure (.handle (String.ofList handle) beginning, next)

/-- A directive, which takes up the line. -/
def directive? (c : Cursor) : Option (Directive × Cursor) := do
  let name := (c.rest.drop 1).takeWhile isNameChar
  let next := c.skipMany (1 + name.length)
  if !next.isBlankAt 0 then none
  else
    let (directive, next) ←
      match String.ofList name with
      | "YAML" => version? next
      | "TAG" => handle? next
      | _ => none
    let next ← next.endLine?
    pure (directive, next)

end Lexer

end PodPlacement.Yaml
