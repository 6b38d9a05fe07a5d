import Mathlib.Data.List.Perm.Basic
import Mathlib.Data.List.Sort
import PodPlacement.Sorting

/-! # Stable sorting is sorting

What `sortBy` does to a list beyond rearranging it. All of this follows from what `insertBy` does to a
list that is sorted already.

* `pairwise_sortBy` — the result is sorted.
* `pairwise_sortBy_of_pairwise` — sorting is stable.
* `map_sortBy` — sorting by a property of the elements is sorting the properties.
* `filter_sortBy` — leaving elements out before or after sorting makes no difference, which is what
  stability amounts to for a part of a list.
* `sortBy_eq_of_perm` — if no two elements order alike, the order they come in does not matter.
* `nodup_eraseDups`, `eraseDups_concat`, `pairwise_lt_sortBy` — elements listed once, in strict order.
* `find?_eq_some_of_isLE` — finding the first element of a sorted list that passes a test. -/

namespace PodPlacement

variable {α β : Type}

/-- An element that orders before all others is inserted at the front. -/
theorem insertBy_eq_cons {cmp : α → α → Ordering} {a : α} {bs : List α} (h : ∀ b ∈ bs, cmp b a ≠ .lt) :
    insertBy cmp a bs = a :: bs := by
  cases bs with
  | nil => rfl
  | cons b bs => rw [insertBy, if_neg (h b List.mem_cons_self)]

/-- Inserting by a property of the elements is inserting the property. -/
theorem map_insertBy (cmp : β → β → Ordering) (f : α → β) (a : α) (bs : List α) :
    (insertBy (fun x y => cmp (f x) (f y)) a bs).map f = insertBy cmp (f a) (bs.map f) := by
  induction bs with
  | nil => rfl
  | cons b bs ih =>
    simp only [insertBy, List.map_cons]
    split
    · rw [List.map_cons, ih]
    · rfl

/-- Sorting by a property of the elements is sorting the properties. -/
theorem map_sortBy (cmp : β → β → Ordering) (f : α → β) (as : List α) :
    (sortBy (fun x y => cmp (f x) (f y)) as).map f = sortBy cmp (as.map f) := by
  induction as with
  | nil => rfl
  | cons a as ih => rw [sortBy_cons, map_insertBy, ih, List.map_cons, sortBy_cons]

/-! ### Ordered lists -/

/-- In an ordered list an element is listed before one that it precedes, and what stands between the two
lies between them. -/
theorem exists_between {R : α → α → Prop} (hasymm : ∀ {x y}, R x y → ¬ R y x) {as : List α}
    (h : as.Pairwise R) {x y : α} (hx : x ∈ as) (hy : y ∈ as) (hxy : R x y) :
    ∃ before between after, as = before ++ x :: (between ++ y :: after) ∧
      ∀ z ∈ between, R x z ∧ R z y := by
  obtain ⟨before, rest, rfl⟩ := List.append_of_mem hx
  obtain ⟨-, hrest, hcross⟩ := List.pairwise_append.1 h
  obtain ⟨hxrest, hrest⟩ := List.pairwise_cons.1 hrest
  have hy' : y ∈ rest := by
    rcases List.mem_append.1 hy with hy | hy
    · exact absurd (hcross y hy x List.mem_cons_self) (hasymm hxy)
    · rcases List.mem_cons.1 hy with rfl | hy
      · exact absurd hxy (hasymm hxy)
      · exact hy
  obtain ⟨between, after, rfl⟩ := List.append_of_mem hy'
  refine ⟨before, between, after, rfl, ?_⟩
  intro z hz
  exact ⟨hxrest z (List.mem_append_left _ hz),
    (List.pairwise_append.1 hrest).2.2 z hz y List.mem_cons_self⟩

/-- Without repetitions, each element is listed once. -/
theorem nodup_eraseDups [BEq α] [LawfulBEq α] : ∀ as : List α, as.eraseDups.Nodup
  | [] => .nil
  | a :: as => by
    -- The copies of the first element are gone from the rest, which is thereby no longer than it was.
    rw [List.eraseDups_cons, List.nodup_cons, List.mem_eraseDups]
    exact ⟨by simp, nodup_eraseDups _⟩
termination_by as => as.length
decreasing_by exact Nat.lt_succ_of_le (List.length_filter_le _ _)

/-- One more element is listed at the end, unless it is listed already. -/
theorem eraseDups_concat [BEq α] [LawfulBEq α] (as : List α) (a : α) :
    (as ++ [a]).eraseDups = if a ∈ as then as.eraseDups else as.eraseDups ++ [a] := by
  rw [List.eraseDups_append, List.removeAll]
  by_cases ha : a ∈ as
  · rw [if_pos ha, List.filter_cons_of_neg (by simpa using ha), List.filter_nil, List.eraseDups_nil, List.append_nil]
  · rw [if_neg ha, List.filter_cons_of_pos (by simpa using ha)]
    rfl

section Trans

variable {cmp : α → α → Ordering} [Std.TransCmp cmp]

/-- What does not order strictly before an element orders no earlier than it. -/
theorem isLE_of_ne_lt {a b : α} (h : cmp b a ≠ .lt) : (cmp a b).isLE := by
  rw [← Std.OrientedCmp.isGE_iff_isLE]
  cases hc : cmp b a <;> simp_all

/-- What orders no earlier than an element does not order strictly before it. -/
theorem ne_lt_of_isLE {a b : α} (h : (cmp a b).isLE) : cmp b a ≠ .lt := by
  rw [← Std.OrientedCmp.isGE_iff_isLE] at h
  intro hlt
  simp [hlt] at h

/-- Two elements neither of which orders after the other order alike. -/
theorem eq_of_isLE_of_isLE {a b : α} (hab : (cmp a b).isLE) (hba : (cmp b a).isLE) : cmp a b = .eq := by
  cases hc : cmp a b with
  | lt => exact absurd hc (ne_lt_of_isLE hba)
  | eq => rfl
  | gt => exact absurd (Std.OrientedCmp.gt_iff_lt.1 hc) (ne_lt_of_isLE hab)

/-! ### Sorted results -/

/-- Inserting an element that came before all others keeps a list sorted and keeps the order in which
elements that order alike came. -/
theorem pairwise_insertBy {R : α → α → Prop} {a : α} {bs : List α} (ha : ∀ b ∈ bs, R a b)
    (h : bs.Pairwise fun x y => cmp x y = .lt ∨ cmp x y = .eq ∧ R x y) :
    (insertBy cmp a bs).Pairwise fun x y => cmp x y = .lt ∨ cmp x y = .eq ∧ R x y := by
  induction bs with
  | nil => exact List.pairwise_singleton _ _
  | cons b bs ih =>
    obtain ⟨hb, hbs⟩ := List.pairwise_cons.1 h
    obtain ⟨hab, habs⟩ := List.forall_mem_cons.1 ha
    by_cases hlt : cmp b a = .lt
    · rw [insertBy, if_pos hlt]
      refine List.pairwise_cons.2 ⟨?_, ih habs hbs⟩
      intro x hx
      rcases List.mem_cons.1 ((insertBy_perm cmp a bs).mem_iff.1 hx) with rfl | hx
      · exact .inl hlt
      · exact hb x hx
    · rw [insertBy, if_neg hlt]
      refine List.pairwise_cons.2 ⟨?_, h⟩
      have hle := isLE_of_ne_lt hlt
      intro x hx
      -- What comes after the first element that is not passed orders no earlier than that one.
      have hxle : (cmp a x).isLE := by
        rcases List.mem_cons.1 hx with rfl | hx
        · exact hle
        · refine Std.TransCmp.isLE_trans hle ?_
          rcases hb x hx with hbx | ⟨hbx, -⟩ <;> rw [hbx] <;> rfl
      cases hc : cmp a x with
      | lt => exact .inl rfl
      | eq => exact .inr ⟨rfl, ha x hx⟩
      | gt => rw [hc] at hxle; cases hxle

/-- Sorting is stable: the result is sorted, and elements that order alike are in the order they came
in. -/
theorem pairwise_sortBy_of_pairwise {R : α → α → Prop} {as : List α} (h : as.Pairwise R) :
    (sortBy cmp as).Pairwise fun x y => cmp x y = .lt ∨ cmp x y = .eq ∧ R x y := by
  induction as with
  | nil => exact .nil
  | cons a as ih =>
    obtain ⟨ha, has⟩ := List.pairwise_cons.1 h
    exact pairwise_insertBy (fun b hb => ha b ((sortBy_perm cmp as).subset hb)) (ih has)

/-- Elements that are in an order already and are sorted by another one are in the second order, and then
in the first. -/
theorem pairwise_sortBy_compareLex {cmp' : α → α → Ordering} {as : List α}
    (h : as.Pairwise fun x y => cmp' x y = .lt) :
    (sortBy cmp as).Pairwise fun x y => compareLex cmp cmp' x y = .lt :=
  (pairwise_sortBy_of_pairwise h).imp Ordering.then_eq_lt.2

/-- The result of sorting is sorted. -/
theorem pairwise_sortBy (as : List α) : (sortBy cmp as).Pairwise fun x y => (cmp x y).isLE := by
  have hany : as.Pairwise fun _ _ => True := List.pairwise_of_forall fun _ _ => trivial
  refine (pairwise_sortBy_of_pairwise hany).imp ?_
  rintro x y (hxy | ⟨hxy, -⟩) <;> rw [hxy] <;> rfl

/-! ### Parts of a list -/

/-- Leaving other elements out before or after inserting one that stays makes no difference. -/
theorem filter_insertBy_of_pos {p : α → Bool} {a : α} (ha : p a = true) {bs : List α}
    (h : bs.Pairwise fun x y => (cmp x y).isLE) :
    (insertBy cmp a bs).filter p = insertBy cmp a (bs.filter p) := by
  induction bs with
  | nil => simp [insertBy, ha]
  | cons b bs ih =>
    obtain ⟨hb, hbs⟩ := List.pairwise_cons.1 h
    by_cases hlt : cmp b a = .lt
    · rw [insertBy, if_pos hlt]
      by_cases hpb : p b = true
      · rw [List.filter_cons_of_pos hpb, List.filter_cons_of_pos hpb, insertBy, if_pos hlt, ih hbs]
      · rw [List.filter_cons_of_neg hpb, List.filter_cons_of_neg hpb, ih hbs]
    · -- The rest is sorted, so nothing that stays orders strictly before the new element.
      have hab := isLE_of_ne_lt hlt
      rw [insertBy, if_neg hlt, List.filter_cons_of_pos ha, insertBy_eq_cons]
      intro x hx
      rcases List.mem_cons.1 (List.mem_filter.1 hx).1 with rfl | hx
      · exact hlt
      · exact ne_lt_of_isLE (Std.TransCmp.isLE_trans hab (hb x hx))

/-- An element that is left out may as well not be inserted. -/
theorem filter_insertBy_of_neg (cmp : α → α → Ordering) {p : α → Bool} {a : α} (ha : ¬ p a = true)
    (bs : List α) : (insertBy cmp a bs).filter p = bs.filter p := by
  induction bs with
  | nil => simp [insertBy, ha]
  | cons b bs ih =>
    unfold insertBy
    split
    · simp only [List.filter_cons, ih]
    · rw [List.filter_cons_of_neg ha]

/-- Leaving elements out before or after sorting makes no difference. -/
theorem filter_sortBy (p : α → Bool) (as : List α) :
    (sortBy cmp as).filter p = sortBy cmp (as.filter p) := by
  induction as with
  | nil => rfl
  | cons a as ih =>
    rw [sortBy_cons]
    by_cases ha : p a = true
    · rw [filter_insertBy_of_pos ha (pairwise_sortBy as), ih, List.filter_cons_of_pos ha, sortBy_cons]
    · rw [filter_insertBy_of_neg cmp ha, ih, List.filter_cons_of_neg ha]

/-! ### Elements that order differently -/

/-- If no two elements order alike, sorting forgets the order they came in. -/
theorem sortBy_eq_of_perm {as bs : List α} (hperm : as.Perm bs)
    (hdiffer : ∀ a ∈ as, ∀ b ∈ as, cmp a b = .eq → a = b) : sortBy cmp as = sortBy cmp bs := by
  have hsorted : (sortBy cmp as).Perm (sortBy cmp bs) :=
    (sortBy_perm cmp as).trans (hperm.trans (sortBy_perm cmp bs).symm)
  refine hsorted.eq_of_pairwise ?_ (pairwise_sortBy as) (pairwise_sortBy bs)
  intro a b ha hb hab hba
  have ha' : a ∈ as := (sortBy_perm cmp as).subset ha
  have hb' : b ∈ as := hperm.symm.subset ((sortBy_perm cmp bs).subset hb)
  exact hdiffer a ha' b hb' (eq_of_isLE_of_isLE hab hba)

/-- If no two elements order alike, elements that are listed once are sorted into a strict order. -/
theorem pairwise_lt_sortBy [Std.LawfulEqCmp cmp] {as : List α} (h : as.Nodup) :
    (sortBy cmp as).Pairwise fun x y => cmp x y = .lt := by
  have hnodup : (sortBy cmp as).Nodup := (sortBy_perm cmp as).nodup_iff.2 h
  refine ((pairwise_sortBy as).and hnodup).imp ?_
  rintro x y ⟨hle, hne⟩
  cases hc : cmp x y with
  | lt => rfl
  | eq => exact absurd (Std.LawfulEqCmp.eq_of_compare hc) hne
  | gt => rw [hc] at hle; cases hle

/-- There is one way to list elements in strict order. -/
theorem eq_of_pairwise_lt {as bs : List α} (has : as.Pairwise fun x y => cmp x y = .lt)
    (hbs : bs.Pairwise fun x y => cmp x y = .lt) (h : ∀ a, a ∈ as ↔ a ∈ bs) : as = bs := by
  have hirrefl : Std.Irrefl fun x y => cmp x y = .lt := ⟨fun x => ne_lt_of_isLE Std.ReflCmp.isLE_rfl⟩
  have hantisymm : Std.Antisymm fun x y => cmp x y = .lt :=
    ⟨fun x y hxy hyx => absurd hyx (ne_lt_of_isLE (Ordering.isLE_of_eq_lt hxy))⟩
  exact has.eq_of_mem_iff hbs h

/-- An element that orders first among those that pass a test is the first one of a sorted list that does,
and what comes before it in the list is what does not order after it. -/
theorem find?_eq_some_of_isLE {as : List α} (hsorted : as.Pairwise fun a b => (cmp a b).isLE)
    (hdiffer : ∀ a ∈ as, ∀ b ∈ as, cmp a b = .eq → a = b) {test : α → Bool} {x : α} (hx : x ∈ as)
    (htest : test x = true) (hfirst : ∀ y ∈ as, test y = true → (cmp x y).isLE) :
    as.find? test = some x ∧
      ∀ y ∈ as, y ≠ x → (y ∈ as.takeWhile (fun a => !test a) ↔ cmp x y ≠ .lt) := by
  obtain ⟨before, after, rfl, hxbefore⟩ := List.eq_append_cons_of_mem hx
  obtain ⟨-, hafter, hbefore⟩ := List.pairwise_append.1 hsorted
  have hfails : ∀ y ∈ before, (!test y) = true := by
    intro y hy
    rw [Bool.not_eq_true', ← Bool.not_eq_true]
    intro hpass
    have hyall := List.mem_append_left (x :: after) hy
    have hsame : cmp x y = .eq :=
      eq_of_isLE_of_isLE (hfirst y hyall hpass) (hbefore y hy x List.mem_cons_self)
    exact hxbefore (hdiffer x hx y hyall hsame ▸ hy)
  refine ⟨List.find?_eq_some_iff_append.2 ⟨htest, before, after, rfl, hfails⟩, ?_⟩
  intro y hy hyx
  rw [List.takeWhile_append_of_pos hfails, List.takeWhile_cons_of_neg (by simp [htest]), List.append_nil]
  constructor
  · intro hybefore
    exact ne_lt_of_isLE (hbefore y hybefore x List.mem_cons_self)
  · intro hlt
    rcases List.mem_append.1 hy with hybefore | hyafter
    · exact hybefore
    · -- What stands behind the element orders after it.
      have hle := List.rel_of_pairwise_cons hafter ((List.mem_cons.1 hyafter).resolve_left hyx)
      cases hc : cmp x y with
      | lt => exact absurd hc hlt
      | eq => exact absurd (hdiffer x hx y hy hc).symm hyx
      | gt => rw [hc] at hle; cases hle

end Trans

end PodPlacement
