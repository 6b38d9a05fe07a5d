import PodPlacement.Yaml.Cursor
import PodPlacement.Yaml.Node

/-! # Texts of scalars

How the text of a scalar is read: in quotes, plain, or as a block of lines. Line breaks inside of a
scalar fold. -/

namespace PodPlacement.Yaml

namespace Lexer

/-- The blanks and breaks up to the next visible character: the spaces and tabs on the first line, the
breaks, and where the text goes on. -/
def skipBlanks : (fuel : Nat) → Cursor → (spaces breaks : List Char) → List Char × List Char × Cursor
  | 0, c, spaces, breaks => (spaces, breaks, c)
  | fuel + 1, c, spaces, breaks =>
    match c.rest with
    | [] => (spaces, breaks, c)
    | ch :: _ =>
      if isBreak ch then skipBlanks fuel c.skipBreak spaces (breaks ++ breakChars c.rest)
      else if ch = ' ' ∨ ch = '\t' then
        skipBlanks fuel c.skip (if breaks.isEmpty then spaces ++ [ch] else spaces) breaks
      else (spaces, breaks, c)

/-- What stands for blanks inside a scalar: a break folds, and blanks without a break stay. -/
def joinBlanks (spaces breaks : List Char) : List Char := if breaks.isEmpty then spaces else fold breaks

/-- A piece in front of a text that goes on. -/
def prepend (piece : List Char) (rest? : Option (List Char × Cursor)) : Option (List Char × Cursor) :=
  rest?.map fun (text, c) => (piece ++ text, c)

/-! ### Quoted scalars -/

/-- The rest of a text in single quotes, in which two quotes stand for one. -/
def singleQuoted? : (fuel : Nat) → Cursor → Option (List Char × Cursor)
  | 0, _ => none
  | fuel + 1, c =>
    if c.isDocumentMark then none
    else
      match c.rest with
      | [] => none
      | '\'' :: '\'' :: _ => prepend ['\''] (singleQuoted? fuel (c.skipMany 2))
      | '\'' :: _ => some ([], c.skip)
      | ch :: _ =>
        if isBlankOrBreak ch then
          let (spaces, breaks, next) := skipBlanks c.rest.length c [] []
          prepend (joinBlanks spaces breaks) (singleQuoted? fuel next)
        else prepend [ch] (singleQuoted? fuel c.skip)

/-- How many hexadecimal digits follow an escape letter. -/
def escapeWidth? : Char → Option Nat
  | 'x' => some 2
  | 'u' => some 4
  | 'U' => some 8
  | _ => none

/-- The character a one-letter escape stands for. -/
def escaped? : Char → Option Char
  | '0' => some '\x00'
  | 'a' => some '\x07'
  | 'b' => some '\x08'
  | 't' => some '\t'
  | '\t' => some '\t'
  | 'n' => some '\n'
  | 'v' => some '\x0b'
  | 'f' => some '\x0c'
  | 'r' => some '\r'
  | 'e' => some '\x1b'
  | ' ' => some ' '
  | '"' => some '"'
  | '/' => some '/'
  | '\\' => some '\\'
  | 'N' => some '\x85'
  | '_' => some '\xa0'
  | 'L' => some '\u2028'
  | 'P' => some '\u2029'
  | _ => none

/-- The character with a number, if there is one. -/
def char? (n : Nat) : Option Char := if n.isValidChar then some (Char.ofNat n) else none

/-- The rest of a text in double quotes, in which a backslash starts an escape. A break behind a
backslash vanishes. -/
def doubleQuoted? : (fuel : Nat) → Cursor → Option (List Char × Cursor)
  | 0, _ => none
  | fuel + 1, c =>
    if c.isDocumentMark then none
    else
      match c.rest with
      | [] => none
      | '"' :: _ => some ([], c.skip)
      | '\\' :: letter :: rest =>
        -- An escaped break and the blanks of the next line vanish; further breaks stay.
        if isBreak letter then
          let (_, breaks, next) := skipBlanks c.rest.length c.skip.skipBreak [] []
          prepend breaks (doubleQuoted? fuel next)
        else
          match escapeWidth? letter with
          | some width => do
            let digits := rest.take width
            if digits.length < width then none
            else
              let n ← Scalar.natural? 16 digits
              let ch ← char? n
              prepend [ch] (doubleQuoted? fuel (c.skipMany (2 + width)))
          | none => do
            let ch ← escaped? letter
            prepend [ch] (doubleQuoted? fuel (c.skipMany 2))
      | ch :: _ =>
        if isBlankOrBreak ch then
          let (spaces, breaks, next) := skipBlanks c.rest.length c [] []
          prepend (joinBlanks spaces breaks) (doubleQuoted? fuel next)
        else prepend [ch] (doubleQuoted? fuel c.skip)

/-! ### Plain scalars -/

/-- The character separates the entries of flow collections. -/
def isFlowMark (c : Char) : Bool := c == ',' || c == '[' || c == ']' || c == '\x7b' || c == '\x7d'

/-- The visible characters of a plain scalar, up to a blank, a colon that ends a key or, in a flow
collection, a mark of it. -/
def plainRun? (inFlow : Bool) : (fuel : Nat) → Cursor → Option (List Char × Cursor)
  | 0, c => some ([], c)
  | fuel + 1, c =>
    match c.rest with
    | [] => some ([], c)
    | ch :: rest =>
      if isBlankOrBreak ch then some ([], c)
      -- A colon in front of a mark of the flow collection is neither text nor the end of a key.
      else if ch = ':' ∧ inFlow ∧ rest.head?.any (fun next => isFlowMark next || next == '?') then none
      else if ch = ':' ∧ c.isBlankAt 1 then some ([], c)
      else if inFlow ∧ isFlowMark ch then some ([], c)
      else do
        let (text, next) ← plainRun? inFlow fuel c.skip
        pure (ch :: text, next)

/-- The blanks behind a run of a plain scalar, as `skipBlanks`. A tab may not indent a line. -/
def plainBlanks? (indent : Int) :
    (fuel : Nat) → Cursor → (spaces breaks : List Char) → Option (List Char × List Char × Cursor)
  | 0, c, spaces, breaks => some (spaces, breaks, c)
  | fuel + 1, c, spaces, breaks =>
    match c.rest with
    | [] => some (spaces, breaks, c)
    | ch :: _ =>
      if isBreak ch then plainBlanks? indent fuel c.skipBreak spaces (breaks ++ breakChars c.rest)
      else if ch = ' ' ∨ ch = '\t' then
        if !breaks.isEmpty && decide ((c.column : Int) < indent) && ch == '\t' then none
        else plainBlanks? indent fuel c.skip (if breaks.isEmpty then spaces ++ [ch] else spaces) breaks
      else some (spaces, breaks, c)

/-- A plain scalar; the text, where it ends, and whether a line break follows it. In a block collection
it goes on only on lines indented further than `indent`. -/
def plain? (inFlow : Bool) (indent : Int) :
    (fuel : Nat) → Cursor → (text blanks : List Char) → (broken : Bool) →
      Option (List Char × Cursor × Bool)
  | 0, c, text, _, broken => some (text, c, broken)
  | fuel + 1, c, text, blanks, broken =>
    if c.isDocumentMark then some (text, c, broken)
    else if c.rest.head? = some '#' then some (text, c, broken)
    else do
      let (run, next) ← plainRun? inFlow c.rest.length c
      let broken := broken && run.isEmpty
      let text := if run.isEmpty then text else text ++ blanks ++ run
      if !(next.rest.head?.any isBlankOrBreak) then pure (text, next, broken)
      else
        let (spaces, breaks, after) ← plainBlanks? indent next.rest.length next [] []
        let broken := broken || !breaks.isEmpty
        if !inFlow && decide ((after.column : Int) < indent) then pure (text, after, broken)
        else plain? inFlow indent fuel after text (joinBlanks spaces breaks) broken

/-! ### Block scalars -/

/-- What becomes of the line breaks at the end of a block scalar. -/
inductive Chomping where
  /-- All are dropped. -/
  | strip
  /-- The first one stays. -/
  | clip
  /-- All stay. -/
  | keep

/-- The chomping that a sign asks for. -/
def Chomping.ofSign? : Char → Option Chomping
  | '+' => some keep
  | '-' => some strip
  | _ => none

/-- The indentation that a digit asks for. It must not be zero. -/
def indentOfDigit? (c : Char) : Option (Option Nat) :=
  if c = '0' then none else if c.isDigit then some (some (c.toNat - 48)) else some none

/-- The header of a block scalar behind its mark: a sign and a digit, in any order. -/
def blockHeader? (c : Cursor) : Option (Chomping × Option Nat × Cursor) :=
  match c.rest with
  | [] => some (.clip, none, c)
  | first :: rest =>
    match Chomping.ofSign? first with
    | some chomping => do
      let indent? ← (rest.head?.map indentOfDigit?).getD (some none)
      pure (chomping, indent?, c.skipMany (if indent?.isSome then 2 else 1))
    | none => do
      let indent? ← indentOfDigit? first
      if indent?.isNone then pure (.clip, none, c)
      else
        match rest.head?.bind Chomping.ofSign? with
        | some chomping => pure (chomping, indent?, c.skipMany 2)
        | none => pure (.clip, indent?, c.skip)

/-- The empty lines in front of the next line of a block scalar: their breaks, the deepest column that
was reached, and the next line. Where the indentation is not known yet, every space belongs to it, and
no tab may stand in it. -/
def blockBreaks? (indent? : Option Nat) :
    (fuel : Nat) → Cursor → (deepest : Nat) → (breaks : List Char) → Option (List Char × Nat × Cursor)
  | 0, c, deepest, breaks => some (breaks, deepest, c)
  | fuel + 1, c, deepest, breaks =>
    let blanks := (c.rest.takeWhile (· == ' ')).length
    let next := c.skipMany (match indent? with
      | some indent => min blanks (indent - c.column)
      | none => blanks)
    let deepest := max deepest next.column
    match next.rest with
    | [] => some (breaks, deepest, next)
    | ch :: _ =>
      if ch = '\t' ∧ indent?.all (fun indent => decide (next.column < indent)) then none
      else if isBreak ch then
        blockBreaks? indent? fuel next.skipBreak deepest (breaks ++ breakChars next.rest)
      else some (breaks, deepest, next)

/-- The lines of a block scalar: its text without the breaks at the end, the break behind the last line,
the breaks behind that, and where the text goes on. In a folded scalar a break between two lines that do
not begin with a blank is a space, unless further breaks follow it. -/
def blockLines? (folded : Bool) (indent : Nat) :
    (fuel : Nat) → Cursor → (lineBreak emptyLines : List Char) → (afterBlank : Bool) →
      Option (List Char × List Char × List Char × Cursor)
  | 0, c, lineBreak, emptyLines, _ => some ([], lineBreak, emptyLines, c)
  | fuel + 1, c, lineBreak, emptyLines, afterBlank =>
    if c.column != indent || c.rest.isEmpty then some ([], lineBreak, emptyLines, c)
    else do
      let blank := c.rest.head?.any fun ch => ch == ' ' || ch == '\t'
      let joint :=
        if folded && lineBreak.head? == some '\n' && !afterBlank && !blank then
          if emptyLines.isEmpty then [' '] else []
        else lineBreak
      let line := c.rest.takeWhile fun ch => !isBreak ch
      let lineEnd := c.skipMany line.length
      let (lineBreak, start) :=
        if lineEnd.rest.isEmpty then ([], lineEnd) else (breakChars lineEnd.rest, lineEnd.skipBreak)
      let (breaks, _, next) ← blockBreaks? (some indent) start.rest.length start 0 []
      let (text, rest) ← blockLines? folded indent fuel next lineBreak breaks blank
      pure (joint ++ emptyLines ++ line ++ text, rest)

/-- A block scalar behind its mark, in a block collection at a column, -1 outside of all. Without a
digit in the header the first line with text shows the indentation, which is at least one further than
that of the collection. -/
def blockScalar? (folded : Bool) (column : Int) (c : Cursor) : Option (List Char × Cursor) := do
  let (chomping, digit?, headerEnd) ← blockHeader? c
  let start ← headerEnd.endLine?
  let given? := digit?.map fun digit => column.toNat + digit
  let (breaks, deepest, first) ← blockBreaks? given? start.rest.length start 0 []
  let indent := given?.getD (max deepest (max (column + 1).toNat 1))
  let (text, lineBreak, emptyLines, next) ← blockLines? folded indent c.rest.length first [] breaks false
  let ending := match chomping with
    | .strip => []
    | .clip => lineBreak
    | .keep => lineBreak ++ emptyLines
  pure (text ++ ending, next)

end Lexer

end PodPlacement.Yaml
