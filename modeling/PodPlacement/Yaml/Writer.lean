import PodPlacement.Number.Style
import PodPlacement.Yaml.Character
import PodPlacement.Yaml.Node

/-! # Writing YAML

Trees are written in block style with an indentation of two; the items of a sequence stand under their
key without indentation. A scalar is written plain where that is allowed, and otherwise

* in single quotes if it has to be quoted,
* in double quotes with escapes if it has a character that cannot be printed,
* as a literal block if it has a line break. -/

namespace PodPlacement.Yaml

/-- Numbers in YAML: positional from `1e-5` up to `1e16`, with a point behind whole numbers. -/
def numberStyle : NumberStyle := ⟨some (-5), some 15, .toEven, true, ".nan", ".inf"⟩

/-- The scalar node of a double. -/
def Node.ofBinary64 (x : Binary64) : Node := .scalar (x.write numberStyle) false

/-- How a scalar is written. -/
inductive ScalarStyle where
  /-- As it is. -/
  | plain
  /-- In single quotes. -/
  | singleQuoted
  /-- In double quotes. -/
  | doubleQuoted
  /-- As a literal block. -/
  | literal
deriving DecidableEq

namespace ScalarStyle

/-- The text would be read as structure if it stood without quotes at its first character. -/
def startsStructure : List Char → Bool
  | '-' :: '-' :: '-' :: _ => true
  | '.' :: '.' :: '.' :: _ => true
  | c :: rest =>
    "#,[]\x7b\x7d&*!|>'\"%@`".toList.contains c ||
      ((c == '-' || c == '?' || c == ':') && rest.head?.all isBlankOrBreak)
  | [] => false

/-- The text has a colon before a blank, or a number sign after one. -/
def hasStructureInside : List Char → Bool
  | a :: b :: rest =>
    (b == ':' && rest.head?.all isBlankOrBreak) || (b == '#' && isBlankOrBreak a) ||
      hasStructureInside (b :: rest)
  | _ => false

/-- Two characters in a row pass the one and the other test. -/
def hasPair (first second : Char → Bool) : List Char → Bool
  | a :: b :: rest => (first a && second b) || hasPair first second (b :: rest)
  | _ => false

/-- The style of a scalar. A literal block is asked for by a line feed; where a style does not fit the
text, the next stronger one is taken. -/
def ofText (text : List Char) (quoted : Bool) : ScalarStyle :=
  let isSpace (c : Char) : Bool := c == ' '
  let blankEnds := text.head?.any (fun c => isSpace c || isBreak c) ||
    text.getLast?.any (fun c => isSpace c || isBreak c)
  let needsEscape := text.any (fun c => !isPrintable c) || hasPair isSpace isBreak text
  if text.contains '\n' then
    -- A literal block cannot end in a space.
    if needsEscape || text.getLast?.any isSpace then doubleQuoted else literal
  else if needsEscape then doubleQuoted
  -- Folding would lose a space behind a break.
  else if hasPair isBreak isSpace text then doubleQuoted
  else if quoted || blankEnds || text.any isBreak || startsStructure text || hasStructureInside text then
    singleQuoted
  else plain

end ScalarStyle

namespace Writer

/-- The indentation of a line. -/
def spaces (indent : Nat) : List Char := List.replicate indent ' '

/-- A text whose lines, after the first break, are indented. -/
def indentLines (indent : Nat) : (atBreak : Bool) → List Char → List Char
  | _, [] => []
  | atBreak, c :: cs =>
    if isBreak c then c :: indentLines indent true cs
    else (if atBreak then spaces indent else []) ++ c :: indentLines indent false cs

/-- The digits of a number in base 16, in capitals, with at least `width` of them. -/
def hexDigits (width n : Nat) : List Char :=
  let digits := (Nat.toDigits 16 n).map Char.toUpper
  List.replicate (width - digits.length) '0' ++ digits

/-- A character inside double quotes. -/
def escape (c : Char) : List Char :=
  let n := c.toNat
  if n = 0x22 ∨ n = 0x5C then ['\\', c]
  else if isPrintable c && !isBreak c then [c]
  else if n = 0x0 then ['\\', '0']
  else if n = 0x7 then ['\\', 'a']
  else if n = 0x8 then ['\\', 'b']
  else if n = 0x9 then ['\\', 't']
  else if n = 0xA then ['\\', 'n']
  else if n = 0xB then ['\\', 'v']
  else if n = 0xC then ['\\', 'f']
  else if n = 0xD then ['\\', 'r']
  else if n = 0x1B then ['\\', 'e']
  else if n = 0x85 then ['\\', 'N']
  else if n = 0x2028 then ['\\', 'L']
  else if n = 0x2029 then ['\\', 'P']
  else if n ≤ 0xFF then '\\' :: 'x' :: hexDigits 2 n
  else if n ≤ 0xFFFF then '\\' :: 'u' :: hexDigits 4 n
  else '\\' :: 'U' :: hexDigits 8 n

/-- The header of a literal block: an indentation is given if the first line does not show it, and what
becomes of the line breaks at the end. -/
def literalHeader (text : List Char) : List Char :=
  let hint := if text.head?.any (fun c => c == ' ' || isBreak c) then ['2'] else []
  let chomping := match text.reverse with
    | [] => ['-']
    | [last] => if isBreak last then ['+'] else ['-']
    | last :: previous :: _ =>
      if !isBreak last then ['-'] else if isBreak previous then ['+'] else []
  '|' :: hint ++ chomping

/-- A scalar whose further lines are indented. -/
def scalarChars (indent : Nat) (text : List Char) (quoted : Bool) : List Char :=
  match ScalarStyle.ofText text quoted with
  | .plain => text
  | .singleQuoted =>
    let doubled := text.flatMap fun c => if c = '\'' then ['\'', '\''] else [c]
    -- The closing quote is indented as well if it stands on a line of its own.
    let beforeQuote := if text.getLast?.any isBreak then spaces indent else []
    '\'' :: indentLines indent false doubled ++ beforeQuote ++ ['\'']
  | .doubleQuoted => '"' :: text.flatMap escape ++ ['"']
  | .literal => literalHeader text ++ '\n' :: indentLines indent true text

/-- A text ended by a line feed, unless it ends in a break. -/
def endLine (text : List Char) : List Char :=
  if text.getLast?.any isBreak then text else text ++ ['\n']

/-- A tag: one that is local as it is, and any other one in angle brackets. -/
def tagChars (tag : String) : List Char :=
  if Tag.isLocal tag then tag.toList else '!' :: '<' :: tag.toList ++ ['>']

/-- The key stands on one line and is short enough to be followed by its value there. -/
def isShortKey : Node → Bool
  | .scalar text _ => !text.toList.any isBreak && decide (text.utf8ByteSize ≤ 128)
  | .sequence items => items.isEmpty
  | .mapping entries => entries.isEmpty
  | .tagged _ _ => false

/-- The text of a short key. An empty text is quoted. -/
def shortKeyChars : Node → List Char
  | .scalar text quoted => scalarChars 0 text.toList (quoted || text.isEmpty)
  | .sequence _ => ['[', ']']
  | .mapping _ => ['\x7b', '\x7d']
  | .tagged _ _ => []

mutual

/-- A node in the collection at `indent`, after a key and its colon or after a dash. The items of a
sequence stand at the indentation of the key; the entries of a mapping are indented. After a dash, the
first item or entry stands on the same line. -/
def nodeChars (indent : Nat) (afterKey : Bool) : Node → List Char
  | .scalar text quoted => endLine (' ' :: scalarChars (indent + 2) text.toList quoted)
  | .sequence [] => [' ', '[', ']', '\n']
  | .mapping [] => [' ', '\x7b', '\x7d', '\n']
  | .sequence items =>
    if afterKey then '\n' :: itemsChars indent true items
    else ' ' :: itemsChars (indent + 2) false items
  | .mapping entries =>
    if afterKey then '\n' :: entriesChars (indent + 2) true entries
    else ' ' :: entriesChars (indent + 2) false entries
  -- Behind a tag a block collection begins on a line of its own.
  | .tagged tag content =>
    ' ' :: tagChars tag ++ nodeChars (if afterKey then indent else indent + 2) true content

/-- The items of a sequence at `indent`; the first one may stand on a line that has begun. -/
def itemsChars (indent : Nat) (onNewLine : Bool) : List Node → List Char
  | [] => []
  | item :: items =>
    (if onNewLine then spaces indent else []) ++ '-' :: nodeChars indent false item ++
      itemsChars indent true items

/-- The entries of a mapping at `indent`; the first one may stand on a line that has begun. -/
def entriesChars (indent : Nat) (onNewLine : Bool) : List (Node × Node) → List Char
  | [] => []
  | entry :: entries =>
    (if onNewLine then spaces indent else []) ++ entryChars indent entry ++
      entriesChars indent true entries

/-- A key and its value; a key that does not fit on the line gets a line of its own. -/
def entryChars (indent : Nat) : Node × Node → List Char
  | (key, value) =>
    if isShortKey key then shortKeyChars key ++ ':' :: nodeChars indent true value
    else '?' :: nodeChars indent false key ++ spaces indent ++ ':' :: nodeChars indent false value

end

/-- A node that stands for itself. -/
def rootChars : Node → List Char
  | .sequence (item :: items) => itemsChars 0 true (item :: items)
  | .mapping (entry :: entries) => entriesChars 0 true (entry :: entries)
  | node => (nodeChars 0 true node).drop 1

end Writer

/-- The document that holds one tree. -/
def Node.document (node : Node) : String := String.ofList (Writer.rootChars node)

end PodPlacement.Yaml
