import PodPlacement.Yaml.Node

/-! # Values of any kind

Where anything may stand, a tree is read for what it stands for as a whole.

* `Value.equals` says when two values are the same.
* `Node.toValue?` is the value of a tree: no integer is too wide and no mapping has two equal keys.
* `Node.depth` is how many collections stand inside one another. -/

namespace PodPlacement.Yaml

/-- What a tree stands for. -/
inductive Value where
  /-- A scalar. -/
  | scalar (scalar : Scalar)
  /-- A sequence. -/
  | sequence (items : List Value)
  /-- A mapping whose keys differ from each other. -/
  | mapping (entries : List (Value × Value))
  /-- A value with a local tag, without the mark of that. -/
  | tagged (name : List Char) (content : Value)

/-- Two scalars are the same value. Two floats are if they are equal as numbers, so the two zeros are
one value, or if both are NaN; a float and an integer never are. -/
def Scalar.equals : Scalar → Scalar → Bool
  | .float x, .float y => x.equals y || (x.isNaN && y.isNaN)
  | a, b => a = b

/-- Every scalar is the same value as itself, NaN included. -/
@[simp]
theorem Scalar.equals_refl (a : Scalar) : a.equals a = true := by
  cases a with
  | float x => cases x <;> simp [equals, Binary64.equals, Binary64.le, Binary64.isNaN]
  | _ => simp [equals]

namespace Value

/-! ### Equality -/

mutual

/-- Two values are the same. Sequences are compared item by item; mappings are equal if they have the
same entries, in whatever order. -/
def equals : Value → Value → Bool
  | .scalar a, .scalar b => a.equals b
  | .sequence as, .sequence bs => equalsItems as bs
  | .mapping as, .mapping bs => as.length == bs.length && areEntriesOf as bs
  | .tagged a aContent, .tagged b bContent => a == b && equals aContent bContent
  | _, _ => false
termination_by structural a => a

/-- Two lists hold the same values in the same order. -/
def equalsItems : List Value → List Value → Bool
  | [], [] => true
  | a :: as, b :: bs => equals a b && equalsItems as bs
  | _, _ => false
termination_by structural as => as

/-- Every entry of a mapping is one of another mapping. -/
def areEntriesOf : List (Value × Value) → List (Value × Value) → Bool
  | [], _ => true
  | a :: as, bs => bs.any (fun b => equalsEntry a b) && areEntriesOf as bs
termination_by structural as => as

/-- Two entries have the same key and the same value. -/
def equalsEntry : Value × Value → Value × Value → Bool
  | (key, value), b => equals key b.1 && equals value b.2
termination_by structural a => a

end

mutual

/-- Every value is the same as itself, so a key that is written twice is one key. -/
theorem equals_refl : (value : Value) → value.equals value = true
  | .scalar a => by rw [equals]; exact a.equals_refl
  | .sequence items => by rw [equals]; exact equalsItems_refl items
  | .mapping entries => by
    rw [equals, beq_self_eq_true, Bool.true_and]
    exact areEntriesOf_of_subset entries entries fun _ h => h
  | .tagged _ content => by rw [equals, beq_self_eq_true, Bool.true_and]; exact equals_refl content

/-- Every list holds the same values as itself. -/
theorem equalsItems_refl : (items : List Value) → equalsItems items items = true
  | [] => rfl
  | item :: items => by rw [equalsItems, equals_refl item, equalsItems_refl items, Bool.and_self]

/-- The entries of a part of a mapping are entries of it. -/
theorem areEntriesOf_of_subset :
    (as bs : List (Value × Value)) → (∀ e ∈ as, e ∈ bs) → areEntriesOf as bs = true
  | [], _, _ => rfl
  | a :: as, bs, h => by
    have found : bs.any (fun b => equalsEntry a b) = true :=
      List.any_eq_true.2 ⟨a, h a List.mem_cons_self, equalsEntry_refl a⟩
    rw [areEntriesOf, found, Bool.true_and]
    exact areEntriesOf_of_subset as bs fun e he => h e (List.mem_cons_of_mem a he)

/-- Every entry has the same key and value as itself. -/
theorem equalsEntry_refl : (entry : Value × Value) → equalsEntry entry entry = true
  | (key, value) => by rw [equalsEntry, equals_refl key, equals_refl value, Bool.and_self]

end

/-- No two keys of a mapping are the same value. -/
def hasDistinctKeys : List (Value × Value) → Bool
  | [] => true
  | (key, _) :: entries => entries.all (fun e => !key.equals e.1) && hasDistinctKeys entries

/-- The value of a scalar; an integer that is too wide has none. -/
def ofScalar? (a : Scalar) : Option Value := if a = .wideInteger then none else some (.scalar a)

/-- The value without its tag. -/
def bare : Value → Value
  | .tagged _ content => content.bare
  | value => value

end Value

namespace Node

/-! ### Depth -/

mutual

/-- How many collections stand inside one another, the tree itself among them; those in a key count like
those in a value. A scalar has depth zero. -/
def depth : Node → Nat
  | .scalar _ _ => 0
  | .sequence items => depthOfItems items + 1
  | .mapping entries => depthOfEntries entries + 1
  | .tagged _ content => depth content

/-- The depth of the deepest item. -/
def depthOfItems : List Node → Nat
  | [] => 0
  | item :: items => max (depth item) (depthOfItems items)

/-- The depth of the deepest key or value. -/
def depthOfEntries : List (Node × Node) → Nat
  | [] => 0
  | entry :: entries => max (depthOfEntry entry) (depthOfEntries entries)

/-- The depth of a key or its value, whichever is deeper. -/
def depthOfEntry : Node × Node → Nat
  | (key, value) => max (depth key) (depth value)

end

/-- The depth of an item is at most that of the deepest. -/
theorem depth_le_depthOfItems {item : Node} {items : List Node} (h : item ∈ items) :
    item.depth ≤ depthOfItems items := by
  induction items with
  | nil => cases h
  | cons first items ih =>
    rw [depthOfItems]
    rcases List.mem_cons.1 h with rfl | h
    · exact Nat.le_max_left _ _
    · exact Nat.le_trans (ih h) (Nat.le_max_right _ _)

/-- An item is less deep than its sequence. -/
theorem depth_lt_depth_sequence {item : Node} {items : List Node} (h : item ∈ items) :
    item.depth < (sequence items).depth := by
  rw [depth]
  exact Nat.lt_succ_of_le (depth_le_depthOfItems h)

/-! ### Values -/

mutual

/-- The value of a tree. A tag of YAML says what a scalar stands for, and nothing about a collection; a
local tag stays with the value. -/
def toValue? : Node → Option Value
  | .scalar text quoted => Value.ofScalar? (.ofSource text quoted)
  | .sequence items => (toItems? items).map .sequence
  | .mapping entries =>
    (toEntries? entries).bind fun entries =>
      if Value.hasDistinctKeys entries then some (.mapping entries) else none
  | .tagged tag content =>
    if Tag.isLocal tag then (toValue? content).map (.tagged (Tag.localName tag))
    else
      match content with
      | .scalar text _ => (Tag.scalar? tag text).bind Value.ofScalar?
      | content => toValue? content

/-- The values of a list of trees. -/
def toItems? : List Node → Option (List Value)
  | [] => some []
  | item :: items => do
    let item ← toValue? item
    let items ← toItems? items
    pure (item :: items)

/-- The values of all keys and values of a mapping. -/
def toEntries? : List (Node × Node) → Option (List (Value × Value))
  | [] => some []
  | entry :: entries => do
    let entry ← toEntry? entry
    let entries ← toEntries? entries
    pure (entry :: entries)

/-- The values of a key and its value. -/
def toEntry? : Node × Node → Option (Value × Value)
  | (key, value) => do
    let key ← toValue? key
    let value ← toValue? value
    pure (key, value)

end

end Node

end PodPlacement.Yaml
