/-! # Binary heaps

A heap keeps its entries in an array in which the children of position `i` stand at `2 * i + 1` and
`2 * i + 2`. The order is handed to every operation, because the entries may be names of things whose
order changes while they are outside the heap.

* `push` lets the new entry rise from the last position while it orders strictly before its parent.
* `pop` takes the root away, puts the last entry in its place, lets it sink to the bottom along the
  children that order first and rise from there. Of two children that order alike the right one
  moves up. -/

namespace PodPlacement

/-- A binary heap; the first entry is at the root. -/
structure Heap (α : Type) where
  /-- The entries, level by level. -/
  items : Array α
deriving DecidableEq

namespace Heap

variable {α : Type} (cmp : α → α → Ordering)

/-- The heap without entries. -/
def empty : Heap α := ⟨#[]⟩

instance : Inhabited (Heap α) := ⟨empty⟩

/-- How many entries the heap holds. -/
def size (h : Heap α) : Nat := h.items.size

/-- The heap holds nothing. -/
def isEmpty (h : Heap α) : Bool := h.items.isEmpty

/-- The entries in the order of their positions. -/
def toList (h : Heap α) : List α := h.items.toList

/-- The entry at the root. -/
def first? (h : Heap α) : Option α := h.items[0]?

/-! ### Moving one entry -/

/-- The entry at position `i` rises while it orders strictly before its parent. -/
def rise (items : Array α) (i : Nat) (hi : i < items.size) : Array α :=
  if h : i = 0 then items
  else if cmp items[i] items[(i - 1) / 2] = .lt then
    rise (items.swap i ((i - 1) / 2) hi (by omega)) ((i - 1) / 2) (by simp; omega)
  else items
termination_by i
decreasing_by omega

/-- The entry at position `i` sinks to the bottom, where it changes places with the child that orders
first at every level, and rises from there. -/
def sink (items : Array α) (i : Nat) (hi : i < items.size) : Array α :=
  if hr : 2 * i + 2 < items.size then
    -- Of two children that order alike the second one comes up.
    if cmp items[2 * i + 1] items[2 * i + 2] = .lt then
      sink (items.swap i (2 * i + 1) hi (by omega)) (2 * i + 1) (by simp; omega)
    else sink (items.swap i (2 * i + 2) hi hr) (2 * i + 2) (by simpa using hr)
  else if hl : 2 * i + 1 < items.size then
    rise cmp (items.swap i (2 * i + 1) hi hl) (2 * i + 1) (by simpa using hl)
  else rise cmp items i hi
termination_by items.size - i
decreasing_by all_goals simp; omega

/-- Rising moves entries only. -/
@[simp]
theorem size_rise (items : Array α) (i : Nat) (hi : i < items.size) :
    (rise cmp items i hi).size = items.size := by
  fun_induction rise cmp items i hi with
  | case1 => rfl
  | case2 _ _ _ _ _ ih => simpa using ih
  | case3 => rfl

/-- Sinking moves entries only. -/
@[simp]
theorem size_sink (items : Array α) (i : Nat) (hi : i < items.size) :
    (sink cmp items i hi).size = items.size := by
  fun_induction sink cmp items i hi with
  | case1 _ _ _ _ _ ih => simpa using ih
  | case2 _ _ _ _ _ ih => simpa using ih
  | case3 => simp
  | case4 => simp

/-! ### Operations -/

/-- Adds an entry. -/
def push (h : Heap α) (x : α) : Heap α :=
  ⟨rise cmp (h.items.push x) h.items.size (by simp)⟩

/-- Adds the entries of a list in turn. -/
def pushAll (h : Heap α) (xs : List α) : Heap α := xs.foldl (push cmp) h

/-- The heap that holds the entries of a list. -/
def ofList (xs : List α) : Heap α := pushAll cmp empty xs

/-- Takes the root away. -/
def pop (h : Heap α) : Option (α × Heap α) :=
  if hs : 0 < h.items.size then
    -- The last entry takes the place of the root.
    let rest := (h.items.swap 0 (h.items.size - 1) hs (by omega)).pop
    some (h.items[0], ⟨if hr : 0 < rest.size then sink cmp rest 0 hr else rest⟩)
  else none

/-- A pushed entry makes the heap larger by one. -/
@[simp]
theorem size_push (h : Heap α) (x : α) : (h.push cmp x).size = h.size + 1 := by
  simp [push, size]

/-- A popped heap has one entry less. -/
theorem size_of_pop {h rest : Heap α} {x : α} (hp : h.pop cmp = some (x, rest)) :
    rest.size + 1 = h.size := by
  simp only [pop, Option.dite_none_right_eq_some, Option.some.injEq, Prod.mk.injEq] at hp
  obtain ⟨hs, -, rfl⟩ := hp
  simp only [size]
  split <;> simp <;> omega

/-- Takes entries away from the front as long as they pass a test; the entries taken and what is
left. -/
def popWhile (test : α → Bool) (h : Heap α) : List α × Heap α :=
  match _hp : h.pop cmp with
  | none => ([], h)
  | some (x, rest) =>
    if test x then
      let (taken, left) := popWhile test rest
      (x :: taken, left)
    else ([], h)
termination_by h.size
decreasing_by
  have := size_of_pop cmp _hp
  omega

end Heap

end PodPlacement
