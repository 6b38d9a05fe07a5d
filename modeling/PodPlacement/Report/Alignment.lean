/-! # Alignment

Texts brought to a width with spaces. A width is a number of characters; the formatter holds it in 16 bits. -/

namespace PodPlacement.Report

/-- A width texts can be brought to. -/
abbrev Width := UInt16

/-- The side a text is moved to. -/
inductive Alignment where
  /-- The spaces follow the text. -/
  | left
  /-- The spaces precede the text. -/
  | right
deriving DecidableEq

/-- The spaces a text lacks to a width. -/
def filler (width : Width) (text : List Char) : List Char := List.replicate (width.toNat - text.length) ' '

/-- A text with the spaces it lacks to a width. -/
def Alignment.pad (alignment : Alignment) (width : Width) (text : List Char) : List Char :=
  match alignment with
  | left => text ++ filler width text
  | right => filler width text ++ text

/-- A padded text has the width, unless the text is longer. -/
@[simp]
theorem Alignment.length_pad (alignment : Alignment) (width : Width) (text : List Char) :
    (alignment.pad width text).length = max width.toNat text.length := by
  cases alignment <;> simp only [pad, filler, List.length_append, List.length_replicate] <;> omega

end PodPlacement.Report
