import PodPlacement.Quantity
import PodPlacement.Yaml.Reader
import PodPlacement.Yaml.Value

/-! # Decoding manifests

How parts of a manifest are read from a YAML tree. A structure is a mapping whose known keys are read
and whose other keys are passed over; every field has a default. An empty scalar stands for an empty
structure or list, but an explicit null does not. -/

namespace PodPlacement.Manifest

open Yaml

/-- The entries of a structure. -/
abbrev Fields := List (String × Node)

/-- The text of a scalar, whatever it would stand for. -/
def text? (node : Node) : Option String :=
  match node.bare with
  | .scalar text _ => some text
  | _ => none

/-- The node is what stands where nothing is written. -/
def isBlankNode (node : Node) : Bool := node.plainText? = some ""

/-- The entries of a mapping; every key must be a scalar. -/
def fields? (node : Node) : Option Fields :=
  if isBlankNode node then some []
  else
    match node.bare with
    | .mapping entries => entries.mapM fun (key, value) => (text? key).map (·, value)
    | _ => none

/-- The items of a list. -/
def items? (node : Node) : Option (List Node) :=
  if isBlankNode node then some []
  else
    match node.bare with
    | .sequence items => some items
    | _ => none

/-- The values given under a key. -/
def Fields.valuesOf (fields : Fields) (key : String) : List Node :=
  (fields.filter fun f => f.1 = key).map Prod.snd

/-- Reads the value of a key with a default for a missing one. A key given twice cannot be read. -/
def Fields.read? {α : Type} (fields : Fields) (key : String) (default : α) (read? : Node → Option α) :
    Option α :=
  match fields.valuesOf key with
  | [] => some default
  | [node] => read? node
  | _ => none

/-- Reads a value that may be null. An unquoted scalar with the tag of null must be one; with any other
tag it is none. -/
def optional? {α : Type} (read? : Node → Option α) (node : Node) : Option (Option α) :=
  let present := (read? node).map some
  match node with
  | .scalar _ false => if node.scalar? = some .null then some none else present
  | .tagged tag (.scalar _ false) =>
    if tag = Tag.null then if node.scalar? = some .null then some none else none else present
  | _ => present

/-- Reads a list of values. -/
def list? {α : Type} (read? : Node → Option α) (node : Node) : Option (List α) := do
  let items ← items? node
  items.mapM read?

/-- Reads an unquoted truth value. -/
def bool? (node : Node) : Option Bool := node.plainText?.bind Scalar.bool?

/-- Reads an unquoted natural number of 32 bits. -/
def count? (node : Node) : Option Nat := do
  let text ← node.plainText?
  (Scalar.nonnegative? text.toList).filter fun n => decide (n < 2 ^ 32)

/-- Reads a resource quantity: a string or a number. -/
def quantity? (node : Node) : Option Quantity :=
  match node.scalar? with
  | some (.string text) => some (.text text)
  | some (.integer n) => some (.number (.ofInt n))
  | some (.float x) => some (.number x)
  | _ => none

/-- How many collections may stand inside one another, from the root of a document to the innermost
one of a value. Parts of a document that are passed over do not count. -/
def nestingLimit : Nat := 128

/-- Reads a value of any kind that stands inside some collections of its document. -/
def value? (around : Nat) (node : Node) : Option Value :=
  if around + node.depth ≤ nestingLimit then node.toValue? else none

end PodPlacement.Manifest
