/-! # Stable sorting

`sortBy cmp` sorts a list by insertion. Elements that order alike keep their order, and the recursion
follows the list, so concrete lists sort by evaluation. -/

namespace PodPlacement

variable {α : Type}

/-- Inserts an element in front of the first one that does not order strictly before it. -/
def insertBy (cmp : α → α → Ordering) (a : α) : List α → List α
  | [] => [a]
  | b :: bs => if cmp b a = .lt then b :: insertBy cmp a bs else a :: b :: bs

/-- Sorts a list; elements that order alike keep their order. -/
def sortBy (cmp : α → α → Ordering) (as : List α) : List α := as.foldr (insertBy cmp) []

/-- Sorting nothing gives nothing. -/
@[simp]
theorem sortBy_nil (cmp : α → α → Ordering) : sortBy cmp [] = [] := rfl

/-- The first element is inserted into the sorted rest. -/
@[simp]
theorem sortBy_cons (cmp : α → α → Ordering) (a : α) (as : List α) :
    sortBy cmp (a :: as) = insertBy cmp a (sortBy cmp as) := rfl

/-- Insertion adds one element. -/
theorem insertBy_perm (cmp : α → α → Ordering) (a : α) (bs : List α) :
    (insertBy cmp a bs).Perm (a :: bs) := by
  induction bs with
  | nil => exact .refl _
  | cons b bs ih =>
    unfold insertBy
    split
    · exact (ih.cons b).trans (.swap a b bs)
    · exact .refl _

/-- Sorting rearranges. -/
theorem sortBy_perm (cmp : α → α → Ordering) (as : List α) : (sortBy cmp as).Perm as := by
  induction as with
  | nil => exact .refl _
  | cons a as ih => exact (insertBy_perm cmp a _).trans (ih.cons a)

end PodPlacement
