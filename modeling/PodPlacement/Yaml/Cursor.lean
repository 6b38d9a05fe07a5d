import PodPlacement.Yaml.Character

/-! # Places in a YAML text

A `Cursor` is a place in a text: what follows, the line and the column. Columns count characters, and
the distance from the start counts bytes. -/

namespace PodPlacement.Yaml

namespace Lexer

/-- A place in the text. -/
structure Cursor where
  /-- What follows. -/
  rest : List Char
  /-- The line, from zero. -/
  line : Nat
  /-- The column, from zero. -/
  column : Nat
  /-- How many bytes of UTF-8 went before. -/
  offset : Nat

namespace Cursor

/-- The bytes of some characters. -/
def byteCount (cs : List Char) : Nat := cs.foldl (fun count c => count + c.utf8Size) 0

/-- Some characters further on the same line. -/
def skipMany (c : Cursor) (count : Nat) : Cursor where
  rest := c.rest.drop count
  line := c.line
  column := c.column + count
  offset := c.offset + byteCount (c.rest.take count)

/-- One character further on the same line. -/
def skip (c : Cursor) : Cursor := c.skipMany 1

/-- Beyond a line break, which is one or two characters. -/
def skipBreak (c : Cursor) : Cursor :=
  let length := match c.rest with
    | '\r' :: '\n' :: _ => 2
    | _ => 1
  { rest := c.rest.drop length
    line := c.line + 1
    column := 0
    offset := c.offset + byteCount (c.rest.take length) }

/-- The character some places further, if there is one. -/
def peek? (c : Cursor) (distance : Nat) : Option Char := c.rest[distance]?

/-- A space, a tab, a line break or the end of the text stands some places further. -/
def isBlankAt (c : Cursor) (distance : Nat) : Bool := (c.peek? distance).all isBlankOrBreak

/-- Three dashes or points stand alone at the start of a line. -/
def isDocumentMark (c : Cursor) : Bool :=
  c.column == 0 && (c.rest.take 3 == ['-', '-', '-'] || c.rest.take 3 == ['.', '.', '.']) &&
    c.isBlankAt 3

/-- Beyond the characters that pass a test, which must not be line breaks. -/
def skipWhile (c : Cursor) (test : Char → Bool) : Cursor := c.skipMany (c.rest.takeWhile test).length

/-- Beyond the spaces and tabs on the line. -/
def skipInline (c : Cursor) : Cursor := c.skipWhile fun ch => ch == ' ' || ch == '\t'

/-- Beyond a comment, if one begins here. -/
def skipComment (c : Cursor) : Cursor :=
  if c.rest.head? = some '#' then c.skipWhile fun ch => !isBreak ch else c

/-- Beyond the line, on which nothing but blanks and a comment may follow. -/
def endLine? (c : Cursor) : Option Cursor :=
  let next := c.skipInline.skipComment
  match next.rest with
  | [] => some next
  | ch :: _ => if isBreak ch then some next.skipBreak else none

end Cursor

/-- The characters a line break reads as: every break is a line feed but for the two Unicode separators. -/
def breakChars : List Char → List Char
  | '\u2028' :: _ => ['\u2028']
  | '\u2029' :: _ => ['\u2029']
  | _ => ['\n']

/-- The line breaks between two parts of a scalar, folded: one break is a space, more lose the first. -/
def fold (breaks : List Char) : List Char :=
  match breaks with
  | '\n' :: [] => [' ']
  | '\n' :: rest => rest
  | rest => rest

end Lexer

end PodPlacement.Yaml
