import PodPlacement.Report.Alignment

/-! # Grids

A grid is a table with borders. Every line of it is framed alike: between two bars stands a segment that
is two characters wider than the widest text of its column. If the formatter cannot pad to the width of a
column, the grid has no text. -/

namespace PodPlacement.Report

/-- A column of a grid. -/
structure Column where
  /-- The heading. -/
  heading : String
  /-- How its texts are aligned. -/
  alignment : Alignment := .left
deriving DecidableEq

/-- A table with `n` columns. -/
structure Grid (n : Nat) where
  /-- The columns. -/
  columns : Vector Column n
  /-- The texts of the rows. -/
  rows : List (Vector String n)

/-- Segments between bars. -/
def framed (bar : Char) (segments : List (List Char)) : List Char :=
  bar :: segments.flatMap fun segment => segment ++ [bar]

namespace Grid

variable {n : Nat}

/-- The headings as a row. -/
def headings (g : Grid n) : Vector String n := g.columns.map Column.heading

/-- How wide the texts of each column are at most. -/
def widths (g : Grid n) : Vector Nat n :=
  g.rows.foldl (fun widths row => widths.zipWith (fun w text => max w text.length) row)
    (g.headings.map String.length)

/-- The widths the texts are padded to, if the formatter can hold all of them. -/
def padWidths? (g : Grid n) : Option (Vector Width n) :=
  let widths := g.widths
  if h : ∀ i, widths.get i < UInt16.size then some (.ofFn fun i => .ofNatLT (widths.get i) (h i)) else none

/-- The segment of a text: the padded text between two spaces. -/
def segment (g : Grid n) (widths : Vector Width n) (row : Vector String n) (i : Fin n) : List Char :=
  ' ' :: g.columns[i].alignment.pad widths[i] row[i].toList ++ [' ']

/-- The line of a row. -/
def rowLine (g : Grid n) (widths : Vector Width n) (row : Vector String n) : List Char :=
  framed '|' ((List.finRange n).map (g.segment widths row))

/-- The line between the headings and the rows, which also borders the grid. -/
def ruleLine (widths : Vector Width n) : List Char :=
  framed '+' (widths.toList.map fun w => List.replicate (w.toNat + 2) '-')

/-- The lines of a grid whose texts are padded to these widths. -/
def lines (g : Grid n) (widths : Vector Width n) : List (List Char) :=
  let rule := ruleLine widths
  rule :: g.rowLine widths g.headings :: rule :: g.rows.map (g.rowLine widths) ++ [rule]

/-- The text of a grid, if it can be laid out. -/
def text? (g : Grid n) : Option String :=
  g.padWidths?.map fun widths => String.ofList ((g.lines widths).flatMap fun line => line ++ ['\n'])

end Grid

end PodPlacement.Report
