import PodPlacement.Yaml.Property
import PodPlacement.Yaml.ScalarText

/-! # YAML tokens

`tokens?` cuts a text into tokens. Indentation becomes tokens of its own: a block collection opens where
its first entry stands further right than the collection around it, and closes where a line stands
further left. A scalar or a flow collection that is followed by a colon on the same line is a key, which
is known only at the colon; its place among the tokens is remembered until then. -/

namespace PodPlacement.Yaml

/-- A piece of a YAML text. -/
inductive Token where
  /-- The three dashes in front of a document. -/
  | documentStart
  /-- The three points behind a document. -/
  | documentEnd
  /-- A block sequence opens. -/
  | blockSequenceStart
  /-- A block mapping opens. -/
  | blockMappingStart
  /-- A block collection closes. -/
  | blockEnd
  /-- An opening bracket. -/
  | flowSequenceStart
  /-- A closing bracket. -/
  | flowSequenceEnd
  /-- An opening brace. -/
  | flowMappingStart
  /-- A closing brace. -/
  | flowMappingEnd
  /-- A comma between the entries of a flow collection. -/
  | comma
  /-- The dash in front of an item of a block sequence. -/
  | dash
  /-- A key follows. -/
  | key
  /-- A value follows. -/
  | value
  /-- A scalar. -/
  | scalar (text : String) (quoted : Bool)
  /-- A name for the next node. -/
  | anchor (name : String)
  /-- A node that was named before. -/
  | alias (name : String)
  /-- The tag of the next node. -/
  | tag (handle name : String)
  /-- A directive. -/
  | directive (directive : Directive)
deriving DecidableEq

namespace Lexer

/-! ### The lexer -/

/-- A place among the tokens at which a key may have begun. -/
structure KeyPlace where
  /-- How many tokens stand before it. -/
  position : Nat
  /-- Where it begins in the text. -/
  start : Cursor
  /-- What begins here must be a key, because it stands in the column of a block collection. -/
  required : Bool

/-- The place is too far behind a cursor: a key stands on one line and is at most 1024 bytes long,
the blanks before its colon among them. -/
def KeyPlace.isPast (k : KeyPlace) (c : Cursor) : Bool :=
  k.start.line != c.line || decide (k.start.offset + 1024 < c.offset)

/-- The lexer between two tokens. -/
structure State where
  /-- Where it is. -/
  cursor : Cursor
  /-- The tokens so far. -/
  tokens : Array Token
  /-- The column of the innermost block collection, -1 outside of all. -/
  indent : Int
  /-- The columns of the block collections around it. -/
  indents : List Int
  /-- A key may begin here. -/
  keyAllowed : Bool
  /-- Where a key may have begun, for the innermost collection first; the last one is the block level. -/
  keyPlaces : List (Option KeyPlace)

namespace State

/-- Inside of brackets or braces. -/
def inFlow (s : State) : Bool := decide (1 < s.keyPlaces.length)

/-- Adds a token at the end. -/
def emit (s : State) (t : Token) : State := { s with tokens := s.tokens.push t }

/-- Adds a token in front of the one at a position. -/
def insertAt (s : State) (position : Nat) (t : Token) : State :=
  { s with tokens := s.tokens.insertIdxIfInBounds position t }

/-- Moves the cursor. -/
def moveTo (s : State) (c : Cursor) : State := { s with cursor := c }

/-- Closes the block collections that stand further right than a column. -/
def closeBlocks (s : State) (column : Int) : State :=
  if s.inFlow then s
  else
    let rec close : Int → List Int → Array Token → Int × List Int × Array Token
      | indent, outer :: rest, tokens =>
        if column < indent then close outer rest (tokens.push .blockEnd)
        else (indent, outer :: rest, tokens)
      | indent, [], tokens => (indent, [], tokens)
    let (indent, indents, tokens) := close s.indent s.indents s.tokens
    { s with indent := indent, indents := indents, tokens := tokens }

/-- Opens a block collection at a column, if it stands further right than the one around it. -/
def openBlock (s : State) (column : Nat) (position : Nat) (t : Token) : State :=
  if !s.inFlow && decide (s.indent < column) then
    { s.insertAt position t with indent := column, indents := s.indent :: s.indents }
  else s

/-- A key may begin at the cursor. -/
def markKey (s : State) : State :=
  if s.keyAllowed then
    let required := !s.inFlow && decide (s.indent = s.cursor.column)
    { s with keyPlaces := some ⟨s.tokens.size, s.cursor, required⟩ :: s.keyPlaces.drop 1 }
  else s

/-- No key has begun. -/
def unmarkKey (s : State) : State := { s with keyPlaces := none :: s.keyPlaces.drop 1 }

/-- What began last is no key. It must not be one that has to be. -/
def dropKey? (s : State) : Option State :=
  if s.keyPlaces.head?.join.any KeyPlace.required then none else some s.unmarkKey

/-- The key that ends at the cursor. -/
def keyHere? (s : State) : Option KeyPlace := (s.keyPlaces.head?.join).filter fun k => !k.isPast s.cursor

/-- A key that must be one has not become one and no longer can. -/
def missesKey (s : State) : Bool :=
  s.keyPlaces.any fun k? => k?.any fun k => k.required && (k.isPast s.cursor || s.cursor.rest.isEmpty)

/-- Beyond blanks, comments and line breaks. Behind a break a key may begin. A tab is a blank only where
it cannot be taken for indentation. -/
def toNextToken : (fuel : Nat) → State → State
  | 0, s => s
  | fuel + 1, s =>
    match s.cursor.rest with
    | ' ' :: _ => toNextToken fuel (s.moveTo s.cursor.skip)
    | '\t' :: _ =>
      if s.inFlow || !s.keyAllowed then toNextToken fuel (s.moveTo s.cursor.skip) else s
    | '#' :: rest =>
      toNextToken fuel
        (s.moveTo (s.cursor.skipMany (1 + (rest.takeWhile fun c => !isBreak c).length)))
    | c :: _ =>
      if isBreak c then
        toNextToken fuel { s.moveTo s.cursor.skipBreak with keyAllowed := s.keyAllowed || !s.inFlow }
      else if c = byteOrderMark ∧ s.cursor.column = 0 then toNextToken fuel (s.moveTo s.cursor.skip)
      else s
    | [] => s

/-- An opening bracket or brace, which may begin a key. -/
def openFlow (s : State) (t : Token) : State :=
  let s := s.markKey
  { (s.emit t).moveTo s.cursor.skip with keyPlaces := none :: s.keyPlaces, keyAllowed := true }

/-- A closing bracket or brace. -/
def closeFlow? (s : State) (t : Token) : Option State := do
  let s ← s.dropKey?
  pure { (s.emit t).moveTo s.cursor.skip with
    keyPlaces := if s.inFlow then s.keyPlaces.drop 1 else s.keyPlaces, keyAllowed := false }

/-- A comma. -/
def comma? (s : State) : Option State := do
  let s ← s.dropKey?
  pure { (s.emit .comma).moveTo s.cursor.skip with keyAllowed := true }

/-- The dash of an item. -/
def dash? (s : State) : Option State :=
  if !s.inFlow && !s.keyAllowed then none
  else do
    let s ← (s.openBlock s.cursor.column s.tokens.size .blockSequenceStart).dropKey?
    pure { (s.emit .dash).moveTo s.cursor.skip with keyAllowed := true }

/-- The question mark of a key that is written out. -/
def explicitKey? (s : State) : Option State :=
  if !s.inFlow && !s.keyAllowed then none
  else do
    let s ← (s.openBlock s.cursor.column s.tokens.size .blockMappingStart).dropKey?
    pure { (s.emit .key).moveTo s.cursor.skip with keyAllowed := !s.inFlow }

/-- The colon in front of a value. What began as a key becomes one. -/
def value? (s : State) : Option State :=
  match s.keyHere? with
  | some k =>
    let s := ((s.insertAt k.position .key).openBlock k.start.column k.position .blockMappingStart)
    some { (s.unmarkKey.emit .value).moveTo s.cursor.skip with keyAllowed := false }
  | none =>
    -- The key was written out, or it is missing.
    if !s.inFlow && !s.keyAllowed then none
    else
      let s := s.openBlock s.cursor.column s.tokens.size .blockMappingStart
      some { (s.emit .value).moveTo s.cursor.skip with keyAllowed := !s.inFlow }

/-- A property of a node or an alias, which may begin a key, up to a cursor. -/
def property (s : State) (t : Token) (next : Cursor) : State :=
  { (s.markKey.emit t).moveTo next with keyAllowed := false }

/-- What stands between documents, up to a cursor: a directive, or three dashes or points. -/
def boundary? (s : State) (t : Token) (next : Cursor) : Option State := do
  let s ← (s.closeBlocks (-1)).dropKey?
  pure { (s.emit t).moveTo next with keyAllowed := false }

/-- A scalar that was read up to a cursor, behind which a key may begin or not. -/
def scalar (s : State) (text : List Char) (quoted : Bool) (next : Cursor) (keyAllowed : Bool) : State :=
  { (s.markKey.emit (.scalar (String.ofList text) quoted)).moveTo next with keyAllowed := keyAllowed }

/-- A block scalar that was read up to a cursor. It is no key, but a key may begin behind it. -/
def blockScalar? (s : State) (text : List Char) (next : Cursor) : Option State := do
  let s ← s.dropKey?
  pure { (s.emit (.scalar (String.ofList text) true)).moveTo next with keyAllowed := true }

/-- A character that can begin a plain scalar. -/
def startsPlain (s : State) (c : Char) : Bool :=
  if isBlankOrBreak c then false
  else if c == '-' then !(s.cursor.peek? 1).any (fun next => next == ' ' || next == '\t')
  else if c == '?' || c == ':' then !s.inFlow && !s.cursor.isBlankAt 1
  else !"#,[]\x7b\x7d&*!|>'\"%@`".toList.contains c

/-- Reads the token at the cursor, where there is one. -/
def next? (s : State) (c : Char) (length : Nat) : Option State :=
  if s.cursor.column = 0 ∧ c = '%' then do
    let (d, next) ← directive? s.cursor
    s.boundary? (.directive d) next
  else if s.cursor.isDocumentMark then
    s.boundary? (if c = '-' then .documentStart else .documentEnd) (s.cursor.skipMany 3)
  else if c = '[' then some (s.openFlow .flowSequenceStart)
  else if c = '\x7b' then some (s.openFlow .flowMappingStart)
  else if c = ']' then s.closeFlow? .flowSequenceEnd
  else if c = '\x7d' then s.closeFlow? .flowMappingEnd
  else if c = ',' then s.comma?
  else if c = '-' ∧ s.cursor.isBlankAt 1 then s.dash?
  else if c = '?' ∧ (s.inFlow ∨ s.cursor.isBlankAt 1) then s.explicitKey?
  else if c = ':' ∧ (s.inFlow ∨ s.cursor.isBlankAt 1) then s.value?
  else if c = '*' then do
    let (name, next) ← anchorName? s.cursor.skip
    pure (s.property (.alias name) next)
  else if c = '&' then do
    let (name, next) ← anchorName? s.cursor.skip
    pure (s.property (.anchor name) next)
  else if c = '!' then do
    let (handle, name, next) ← tag? s.inFlow s.cursor
    pure (s.property (.tag handle name) next)
  else if (c = '|' ∨ c = '>') ∧ !s.inFlow then do
    let (text, next) ← Lexer.blockScalar? (c == '>') s.indent s.cursor.skip
    s.blockScalar? text next
  else if c = '\'' then do
    let (text, next) ← singleQuoted? length s.cursor.skip
    pure (s.scalar text true next false)
  else if c = '"' then do
    let (text, next) ← doubleQuoted? length s.cursor.skip
    pure (s.scalar text true next false)
  else if s.startsPlain c then do
    let (text, next, broken) ← plain? s.inFlow (s.indent + 1) length s.cursor [] [] false
    pure (s.scalar text false next broken)
  else none

/-- Reads tokens to the end of the text. -/
def run? : (fuel : Nat) → State → Option (List Token)
  | 0, _ => none
  | fuel + 1, s =>
    let s := toNextToken s.cursor.rest.length s
    if s.missesKey then none
    else
      let s := s.closeBlocks s.cursor.column
      match s.cursor.rest with
      | [] => some (s.closeBlocks (-1)).tokens.toList
      | c :: rest => do
        let s ← s.next? c (rest.length + 1)
        run? fuel s

end State

end Lexer

/-- The tokens of a text, if it has none but readable characters and can be cut. -/
def tokens? (text : String) : Option (List Token) :=
  let chars := text.toList
  if chars.all isReadable then
    Lexer.State.run? (chars.length + 1)
      { cursor := ⟨chars, 0, 0, 0⟩, tokens := #[], indent := -1, indents := [], keyAllowed := true,
        keyPlaces := [none] }
  else none

end PodPlacement.Yaml
