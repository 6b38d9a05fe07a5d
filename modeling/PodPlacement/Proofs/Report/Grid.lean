import Mathlib.Algebra.GroupWithZero.Nat
import Mathlib.Data.List.Forall2
import PodPlacement.Report.Grid

/-! # Grids are rectangular

All lines of a grid are framed alike: their segments have the widths of the columns and two characters more, so the
bars of every line stand at the same offsets. A text is never wider than its column, so nothing of it is cut off. The
formatter holds a width in 16 bits, so a grid with a longer text than that is not laid out at all.

* `getElem?_framed_barOffset`, `extract_framed`, `getElem?_framed_eq_some_iff` — where the bars of a framed line are
  and what stands between them.
* `forall_widths_lt_iff` — the widths are the least upper bounds of the texts.
* `padWidths?_eq_none_iff`, `get_padWidths?` — when the formatter can hold the widths, and that it then keeps them.
* `linesOf_flatMap` — lines that end with line breaks are read back as the lines of a text.
* `Rectangular`, `text?_rectangular` — the lines of the text of a grid. -/

namespace PodPlacement.Report

/-! ### Framed lines -/

/-- The offset of a bar of a line whose segments have these lengths. -/
def barOffset (lengths : List Nat) (i : Nat) : Nat := ((lengths.take i).map (· + 1)).sum

/-- The first bar opens the line. -/
@[simp]
theorem barOffset_zero (lengths : List Nat) : barOffset lengths 0 = 0 := rfl

/-- Behind a segment the bars follow as if the line began there. -/
@[simp]
theorem barOffset_cons_succ (length : Nat) (lengths : List Nat) (i : Nat) :
    barOffset (length :: lengths) (i + 1) = length + 1 + barOffset lengths i := by
  rw [barOffset, List.take_succ_cons, List.map_cons, List.sum_cons, barOffset]

/-- A line without segments is a bar. -/
@[simp]
theorem framed_nil (bar : Char) : framed bar [] = [bar] := rfl

/-- Behind its first segment a framed line is framed. -/
theorem framed_cons (bar : Char) (segment : List Char) (segments : List (List Char)) :
    framed bar (segment :: segments) = (bar :: segment) ++ framed bar segments := by
  simp [framed]

/-- A framed line ends with its last bar. -/
theorem length_framed (bar : Char) (segments : List (List Char)) :
    (framed bar segments).length = barOffset (segments.map List.length) segments.length + 1 := by
  induction segments with
  | nil => rfl
  | cons segment segments ih =>
    rw [framed_cons, List.length_append, ih, List.map_cons, List.length_cons, List.length_cons,
      barOffset_cons_succ]
    exact (Nat.add_assoc _ _ 1).symm

/-- At the offset of a bar stands the bar. -/
theorem getElem?_framed_barOffset (bar : Char) (segments : List (List Char)) {i : Nat} (hi : i ≤ segments.length) :
    (framed bar segments)[barOffset (segments.map List.length) i]? = some bar := by
  induction segments generalizing i with
  | nil =>
    rw [List.length_nil, Nat.le_zero] at hi
    rw [hi]
    rfl
  | cons segment segments ih =>
    rw [framed_cons, List.map_cons]
    cases i with
    | zero => rfl
    | succ i =>
      rw [barOffset_cons_succ, ← List.length_cons (a := bar), List.getElem?_append_right (Nat.le_add_right _ _),
        Nat.add_sub_cancel_left]
      exact ih (Nat.le_of_succ_le_succ hi)

/-- Between two bars stands a segment. -/
theorem extract_framed (bar : Char) (segments : List (List Char)) {i : Nat} (hi : i < segments.length) :
    (framed bar segments).extract (barOffset (segments.map List.length) i + 1)
      (barOffset (segments.map List.length) (i + 1)) = segments[i] := by
  induction segments generalizing i with
  | nil => exact absurd hi (Nat.not_lt_zero i)
  | cons segment segments ih =>
    rw [framed_cons, List.map_cons]
    cases i with
    | zero => simp [List.extract_eq_take_drop]
    | succ i =>
      have htail := ih (Nat.lt_of_succ_lt_succ hi)
      simp only [List.extract_eq_take_drop] at htail ⊢
      rw [barOffset_cons_succ, barOffset_cons_succ, List.getElem_cons_succ, ← htail,
        ← List.length_cons (a := bar), Nat.add_assoc, List.drop_length_add_append]
      congr 1
      omega

/-- If no segment holds a bar, the bars are at their offsets only. -/
theorem getElem?_framed_eq_some_iff {bar : Char} {segments : List (List Char)}
    (hbar : ∀ segment ∈ segments, bar ∉ segment) (k : Nat) :
    (framed bar segments)[k]? = some bar ↔
      ∃ i ≤ segments.length, barOffset (segments.map List.length) i = k := by
  constructor
  · intro hk
    induction segments generalizing k with
    | nil =>
      obtain ⟨hlt, -⟩ := List.getElem?_eq_some_iff.1 hk
      exact ⟨0, Nat.le_refl 0, (Nat.lt_one_iff.1 hlt).symm⟩
    | cons segment segments ih =>
      obtain ⟨hsegment, hsegments⟩ := List.forall_mem_cons.1 hbar
      rw [framed_cons] at hk
      rcases Nat.lt_or_ge k (segment.length + 1) with hlt | hge
      · -- Before the second bar there is only the first one.
        cases k with
        | zero => exact ⟨0, Nat.zero_le _, rfl⟩
        | succ k =>
          rw [List.getElem?_append_left (by simpa using hlt), List.getElem?_cons_succ] at hk
          exact absurd (List.mem_of_getElem? hk) hsegment
      · rw [List.getElem?_append_right (by simpa using hge), List.length_cons] at hk
        obtain ⟨i, hi, heq⟩ := ih hsegments _ hk
        refine ⟨i + 1, Nat.succ_le_succ hi, ?_⟩
        rw [List.map_cons, barOffset_cons_succ, heq]
        omega
  · rintro ⟨i, hi, rfl⟩
    exact getElem?_framed_barOffset bar segments hi

/-! ### Texts in their columns -/

namespace Alignment

/-- A text stands whole in a segment, with one space on the side it is moved to and all other spaces on the other
side. -/
def Sets (alignment : Alignment) (text segment : List Char) : Prop :=
  ∃ k, segment =
    match alignment with
    | left => ' ' :: text ++ List.replicate (k + 1) ' '
    | right => List.replicate (k + 1) ' ' ++ text ++ [' ']

/-- A padded text between two spaces stands whole in its segment. -/
theorem sets_pad (alignment : Alignment) (width : Width) (text : List Char) :
    alignment.Sets text (' ' :: alignment.pad width text ++ [' ']) := by
  refine ⟨width.toNat - text.length, ?_⟩
  cases alignment with
  | left => simp [pad, filler, List.replicate_succ']
  | right => simp [pad, filler, List.replicate_succ]

end Alignment

namespace Grid

variable {n : Nat} (g : Grid n)

/-- Widths that take rows into account one after another are below a bound exactly if the widths they begin with and
all texts of the rows are. -/
theorem foldl_widths_lt_iff (rows : List (Vector String n)) (widths : Vector Nat n) (i : Fin n) (bound : Nat) :
    (rows.foldl (fun ws row => ws.zipWith (fun w text => max w text.length) row) widths).get i < bound ↔
      widths.get i < bound ∧ ∀ row ∈ rows, (row.get i).length < bound := by
  induction rows generalizing widths with
  | nil => simp
  | cons first rows ih =>
    have hfirst : (widths.zipWith (fun w text => max w text.length) first).get i =
        max (widths.get i) (first.get i).length := Vector.getElem_zipWith i.isLt
    rw [List.foldl_cons, ih, hfirst, Nat.max_lt, List.forall_mem_cons, and_assoc]

/-- A column is narrower than a bound exactly if all its texts are. -/
theorem widths_lt_iff (i : Fin n) (bound : Nat) :
    g.widths.get i < bound ↔ ∀ row, row = g.headings ∨ row ∈ g.rows → (row.get i).length < bound := by
  have hheading : (g.headings.map String.length).get i = (g.headings.get i).length := Vector.getElem_map _ i.isLt
  rw [widths, foldl_widths_lt_iff, hheading]
  exact ⟨fun ⟨hheading, hrows⟩ row hrow => hrow.elim (fun h => h ▸ hheading) (hrows row),
    fun h => ⟨h _ (.inl rfl), fun row hrow => h row (.inr hrow)⟩⟩

/-- No text is wider than its column. -/
theorem length_le_widths {row : Vector String n} (hrow : row = g.headings ∨ row ∈ g.rows) (i : Fin n) :
    (row.get i).length ≤ g.widths.get i :=
  Nat.le_of_lt_succ ((g.widths_lt_iff i _).1 (Nat.lt_succ_self _) row hrow)

/-- A text is a heading or stands in a row. -/
def HasText (text : String) : Prop := ∃ row, (row = g.headings ∨ row ∈ g.rows) ∧ text ∈ row

/-- All columns are narrower than a bound exactly if all texts are. -/
theorem forall_widths_lt_iff (bound : Nat) :
    (∀ i, g.widths.get i < bound) ↔ ∀ text, g.HasText text → text.length < bound := by
  constructor
  · rintro h text ⟨row, hrow, htext⟩
    obtain ⟨i, hi, rfl⟩ := Vector.mem_iff_getElem.1 htext
    exact (g.widths_lt_iff ⟨i, hi⟩ bound).1 (h ⟨i, hi⟩) row hrow
  · intro h i
    refine (g.widths_lt_iff i bound).2 fun row hrow => ?_
    exact h _ ⟨row, hrow, Vector.getElem_mem i.isLt⟩

/-- The formatter cannot hold the widths exactly if some text has more characters than 16 bits count. -/
theorem padWidths?_eq_none_iff : g.padWidths? = none ↔ ∃ text, g.HasText text ∧ 65535 < text.length := by
  rw [padWidths?, dite_eq_right_iff]
  simp only [reduceCtorEq, imp_false, g.forall_widths_lt_iff, not_forall, Nat.not_lt, exists_prop]
  exact Iff.rfl

/-- The formatter keeps the widths it can hold. -/
theorem get_padWidths? {widths : Vector Width n} (hwidths : g.padWidths? = some widths) (i : Fin n) :
    (widths.get i).toNat = g.widths.get i := by
  rw [padWidths?, Option.dite_none_right_eq_some] at hwidths
  obtain ⟨hlt, hsame⟩ := hwidths
  rw [← Option.some.inj hsame]
  exact congrArg UInt16.toNat (Vector.getElem_ofFn i.isLt)

/-- The lengths of the segments of every line. -/
def segmentLengths (widths : Vector Width n) : List Nat := widths.toList.map fun w => w.toNat + 2

/-- There are as many segments as columns. -/
@[simp]
theorem length_segmentLengths (widths : Vector Width n) : (segmentLengths widths).length = n := by
  simp [segmentLengths]

/-- The offsets of the bars of every line. -/
def bar (widths : Vector Width n) (i : Fin (n + 1)) : Nat := barOffset (segmentLengths widths) i

/-! ### Rules -/

/-- The segments of a rule have the widths of the columns and two characters more. -/
theorem map_length_dashes (widths : Vector Width n) :
    (widths.toList.map fun w => List.replicate (w.toNat + 2) '-').map List.length = segmentLengths widths := by
  simp [segmentLengths, Function.comp_def]

/-- There are only dashes in the segments of a rule. -/
theorem eq_dash_of_mem {widths : Vector Width n} {segment : List Char} {c : Char}
    (hsegment : segment ∈ widths.toList.map fun w => List.replicate (w.toNat + 2) '-') (hc : c ∈ segment) :
    c = '-' := by
  obtain ⟨w, -, rfl⟩ := List.mem_map.1 hsegment
  exact List.eq_of_mem_replicate hc

/-- The plus signs of a rule stand at the offsets of the bars. -/
theorem getElem?_ruleLine_eq_some_iff (widths : Vector Width n) (k : Nat) :
    (ruleLine widths)[k]? = some '+' ↔ ∃ i, bar widths i = k := by
  have hdashes : ∀ segment ∈ widths.toList.map fun w => List.replicate (w.toNat + 2) '-', '+' ∉ segment :=
    fun segment hsegment hplus => absurd (eq_dash_of_mem hsegment hplus) (by decide)
  rw [ruleLine, getElem?_framed_eq_some_iff hdashes, map_length_dashes, List.length_map, Vector.length_toList]
  constructor
  · rintro ⟨i, hi, heq⟩
    exact ⟨⟨i, Nat.lt_succ_of_le hi⟩, heq⟩
  · rintro ⟨i, heq⟩
    exact ⟨i, i.is_le, heq⟩

/-- A line shows a row: it has bars at the given offsets, and each text of the row stands whole between its two
bars. -/
structure Shows (columns : Vector Column n) (bar : Fin (n + 1) → Nat) (row : Vector String n)
    (chars : List Char) : Prop where
  /-- Bars stand at their offsets. -/
  bars (i : Fin (n + 1)) : chars[bar i]? = some '|'
  /-- Texts stand between their bars, aligned. -/
  cells (i : Fin n) :
    (columns.get i).alignment.Sets (row.get i).toList (chars.extract (bar i.castSucc + 1) (bar i.succ))

/-- What holds of a rule and of the lines of the headings and rows holds of all lines. -/
theorem forall_mem_lines {P : List Char → Prop} {widths : Vector Width n} (hrule : P (ruleLine widths))
    (hrow : ∀ row, row = g.headings ∨ row ∈ g.rows → P (g.rowLine widths row)) :
    ∀ line ∈ g.lines widths, P line := by
  intro line hline
  simp only [lines, List.mem_append, List.mem_cons, List.mem_map, List.not_mem_nil, or_false] at hline
  rcases hline with (rfl | rfl | rfl | ⟨row, hmem, rfl⟩) | rfl
  · exact hrule
  · exact hrow _ (.inl rfl)
  · exact hrule
  · exact hrow row (.inr hmem)
  · exact hrule

/-! ### Rows -/

section PadWidths

variable {g} {widths : Vector Width n} (hwidths : g.padWidths? = some widths)

include hwidths

/-- The segments of a row are as long as those of a rule. -/
theorem map_length_segment {row : Vector String n} (hrow : row = g.headings ∨ row ∈ g.rows) :
    ((List.finRange n).map (g.segment widths row)).map List.length = segmentLengths widths := by
  refine List.ext_getElem (by simp) fun i hi _ => ?_
  have hin : i < n := by simpa using hi
  have hwidth : row[i].length ≤ widths[i].toNat := by
    have hle := g.length_le_widths hrow ⟨i, hin⟩
    rwa [← get_padWidths? g hwidths] at hle
  rw [← String.length_toList] at hwidth
  simp [segment, segmentLengths, hwidth]

/-- The line of a row shows the row. -/
theorem shows_rowLine {row : Vector String n} (hrow : row = g.headings ∨ row ∈ g.rows) :
    Shows g.columns (bar widths) row (g.rowLine widths row) where
  bars i := by
    rw [bar, ← map_length_segment hwidths hrow, rowLine]
    exact getElem?_framed_barOffset '|' _ (by simpa using i.is_le)
  cells i := by
    have hi : i.val < ((List.finRange n).map (g.segment widths row)).length := by simp
    have hcell := extract_framed '|' _ hi
    rw [map_length_segment hwidths hrow] at hcell
    rw [rowLine, bar, bar, Fin.val_castSucc, Fin.val_succ, hcell, List.getElem_map, List.getElem_finRange]
    exact Alignment.sets_pad _ _ _

/-- All lines are as long as the segments with their bars. -/
theorem length_eq_of_mem_lines : ∀ line ∈ g.lines widths, line.length = barOffset (segmentLengths widths) n + 1 := by
  refine g.forall_mem_lines ?_ fun row hrow => ?_
  · rw [ruleLine, length_framed, map_length_dashes]
    simp
  · rw [rowLine, length_framed, map_length_segment hwidths hrow]
    simp

end PadWidths

end Grid

/-! ### The text of a grid -/

/-- The lines of a text. A line break ends each of them, except perhaps the last one. -/
def linesOf (text : String) : List (List Char) :=
  let pieces := text.toList.splitOn '\n'
  if pieces.getLast? = some [] then pieces.dropLast else pieces

/-- Lines that end with line breaks are the pieces between those, with nothing behind the last one. -/
theorem flatMap_eq_intercalate (lines : List (List Char)) :
    (lines.flatMap fun line => line ++ ['\n']) = ['\n'].intercalate (lines ++ [[]]) := by
  induction lines with
  | nil => rfl
  | cons line lines ih =>
    rw [List.flatMap_cons, ih, List.cons_append, List.intercalate_cons_of_ne_nil (by simp), List.append_assoc]

/-- Lines without line breaks are read back from a text in which each ends with one. -/
theorem linesOf_flatMap {lines : List (List Char)} (h : ∀ line ∈ lines, '\n' ∉ line) :
    linesOf (String.ofList (lines.flatMap fun line => line ++ ['\n'])) = lines := by
  have hpieces : ∀ piece ∈ lines ++ [[]], '\n' ∉ piece :=
    List.forall_mem_append.2 ⟨h, List.forall_mem_singleton.2 List.not_mem_nil⟩
  have hsplit := List.splitOn_intercalate '\n' hpieces (by simp)
  rw [linesOf, String.toList_ofList, flatMap_eq_intercalate, hsplit]
  simp

/-- A line holds its bars, what stands between them, and nothing else. -/
theorem mem_framed {c bar : Char} {segments : List (List Char)} (h : c ∈ framed bar segments) :
    c = bar ∨ ∃ segment ∈ segments, c ∈ segment := by
  simp only [framed, List.mem_cons, List.mem_flatMap, List.mem_append, List.not_mem_nil, or_false] at h
  grind

/-- Padding puts spaces around a text and nothing else. -/
theorem Alignment.mem_pad {alignment : Alignment} {width : Width} {text : List Char} {c : Char}
    (h : c ∈ alignment.pad width text) : c ∈ text ∨ c = ' ' := by
  have hspace (hc : c ∈ filler width text) : c = ' ' := List.eq_of_mem_replicate hc
  cases alignment with
  | left => exact (List.mem_append.1 h).imp_right hspace
  | right => exact (List.mem_append.1 h).symm.imp_right hspace

namespace Grid

variable {n : Nat} (g : Grid n)

/-- There are only the text and spaces in a segment of a row. -/
theorem mem_segment {widths : Vector Width n} {row : Vector String n} {i : Fin n} {c : Char}
    (h : c ∈ g.segment widths row i) : c ∈ (row.get i).toList ∨ c = ' ' := by
  simp only [segment, List.cons_append, List.mem_cons, List.mem_append, List.not_mem_nil, or_false] at h
  rcases h with h | h | h
  · exact .inr h
  · exact Alignment.mem_pad h
  · exact .inr h

/-- A text with a line break would break the line of its row. Without such texts no line has one. -/
theorem lineBreak_notMem_lines (hbreak : ∀ text, g.HasText text → '\n' ∉ text.toList) (widths : Vector Width n) :
    ∀ line ∈ g.lines widths, '\n' ∉ line := by
  refine g.forall_mem_lines (fun h => ?_) fun row hrow h => ?_
  · obtain h | ⟨segment, hsegment, h⟩ := mem_framed h
    · exact absurd h (by decide)
    · exact absurd (eq_dash_of_mem hsegment h) (by decide)
  · obtain h | ⟨segment, hsegment, h⟩ := mem_framed h
    · exact absurd h (by decide)
    · obtain ⟨i, -, rfl⟩ := List.mem_map.1 hsegment
      obtain h | h := g.mem_segment h
      · exact hbreak _ ⟨row, hrow, Vector.getElem_mem i.isLt⟩ h
      · exact absurd h (by decide)

/-- The lines show a grid: a rule, the headings, a rule, the rows and a rule. All of them are as long, and the bars of
the headings and rows stand below the plus signs of the rules. -/
structure Rectangular (lines : List (List Char)) : Prop where
  /-- There are four lines more than rows. -/
  length_eq : lines.length = g.rows.length + 4
  /-- All lines have the same number of characters. -/
  width_eq : ∀ line ∈ lines, ∀ line' ∈ lines, line.length = line'.length
  /-- The headings and rows stand between rules, and their texts between bars. -/
  shows : ∃ (rule headings : List Char) (rows : List (List Char)) (bar : Fin (n + 1) → Nat),
    lines = rule :: headings :: rule :: rows ++ [rule] ∧
      (∀ k, rule[k]? = some '+' ↔ ∃ i, bar i = k) ∧
      Shows g.columns bar g.headings headings ∧ List.Forall₂ (Shows g.columns bar) g.rows rows

/-- The lines of a grid are rectangular. -/
theorem rectangular_lines {widths : Vector Width n} (hwidths : g.padWidths? = some widths) :
    g.Rectangular (g.lines widths) where
  length_eq := by simp [lines]
  width_eq line hline line' hline' := by
    rw [length_eq_of_mem_lines hwidths line hline, length_eq_of_mem_lines hwidths line' hline']
  shows := by
    refine ⟨_, _, _, bar widths, rfl, getElem?_ruleLine_eq_some_iff widths, shows_rowLine hwidths (.inl rfl), ?_⟩
    rw [List.forall₂_map_right_iff, List.forall₂_same]
    exact fun row hrow => shows_rowLine hwidths (.inr hrow)

/-- A grid has no text exactly if one of its texts has more characters than 16 bits count. -/
theorem text?_eq_none_iff : g.text? = none ↔ ∃ text, g.HasText text ∧ 65535 < text.length := by
  rw [text?, Option.map_eq_none_iff, padWidths?_eq_none_iff]

/-- A grid without line breaks in its texts is rectangular if all of them have at most 65535 characters. If one of
them is longer, the grid is not laid out. -/
theorem text?_rectangular (hbreak : ∀ text, g.HasText text → '\n' ∉ text.toList) :
    ((∀ text, g.HasText text → text.length ≤ 65535) →
        ∃ written, g.text? = some written ∧ g.Rectangular (linesOf written)) ∧
      ((∃ text, g.HasText text ∧ 65535 < text.length) → g.text? = none) := by
  refine ⟨fun hshort => ?_, g.text?_eq_none_iff.2⟩
  have hpad : g.padWidths? ≠ none := by
    rw [Ne, padWidths?_eq_none_iff]
    rintro ⟨text, htext, hlong⟩
    exact absurd (hshort text htext) (Nat.not_le_of_lt hlong)
  obtain ⟨widths, hwidths⟩ := Option.ne_none_iff_exists'.1 hpad
  have hlines := linesOf_flatMap (g.lineBreak_notMem_lines hbreak widths)
  refine ⟨_, by rw [text?, hwidths, Option.map_some], ?_⟩
  rw [hlines]
  exact g.rectangular_lines hwidths

end Grid

/-- A grid of two columns with texts of one, two and three bytes a character, one of them with bars of its own. -/
def umlautGrid : Grid 2 where
  columns := #v[⟨"Jöb", .left⟩, ⟨"s", .right⟩]
  rows := [#v["| a |", "7"], #v["", "–12.50"]]

/-- The text of such a grid is rectangular. -/
theorem text?_rectangular_umlautGrid :
    (∀ text, umlautGrid.HasText text → '\n' ∉ text.toList) ∧
      ∃ written, umlautGrid.text? = some written ∧ umlautGrid.Rectangular (linesOf written) := by
  have htexts : ∀ text, umlautGrid.HasText text → '\n' ∉ text.toList ∧ text.length ≤ 65535 := by
    rintro text ⟨row, hrow, htext⟩
    simp only [umlautGrid, Grid.headings, List.mem_cons, List.not_mem_nil, or_false] at hrow
    rcases hrow with rfl | rfl | rfl <;> simp at htext <;> rcases htext with rfl | rfl <;> decide
  have hbreak := fun text h => (htexts text h).1
  exact ⟨hbreak, (umlautGrid.text?_rectangular hbreak).1 fun text h => (htexts text h).2⟩

/-- A grid of one column without rows. -/
def headingGrid (heading : String) : Grid 1 := ⟨#v[⟨heading, .left⟩], []⟩

/-- Its only text is the heading. -/
theorem hasText_headingGrid {heading text : String} : (headingGrid heading).HasText text ↔ text = heading := by
  constructor
  · rintro ⟨row, rfl | hrow, htext⟩
    · simpa [headingGrid, Grid.headings] using htext
    · exact absurd hrow List.not_mem_nil
  · rintro rfl
    exact ⟨_, .inl rfl, by simp [headingGrid, Grid.headings]⟩

/-- A heading of 65536 letters has no line break, and still no grid is laid out. -/
theorem text?_headingGrid_wide :
    (∀ text, (headingGrid (String.ofList (List.replicate 65536 'n'))).HasText text → '\n' ∉ text.toList) ∧
      (headingGrid (String.ofList (List.replicate 65536 'n'))).text? = none := by
  constructor
  · intro text htext hbreak
    rw [hasText_headingGrid.1 htext, String.toList_ofList] at hbreak
    exact absurd (List.eq_of_mem_replicate hbreak) (by decide)
  · have hlength : (String.ofList (List.replicate 65536 'n')).length = 65536 := by
      rw [String.length_ofList, List.length_replicate]
    exact (Grid.text?_eq_none_iff _).2 ⟨_, hasText_headingGrid.2 rfl, Nat.le_of_eq hlength.symm⟩

end PodPlacement.Report
