import Mathlib.Data.List.Perm.Basic
import PodPlacement.Heap

/-! # Heaps are priority queues

A heap is *valid* if no entry orders after one of its children. This file shows that the operations
keep valid heaps valid and what they do to the entries, whose order in the array never matters again.

* `ordered_rise`, `ordered_sink` — moving one entry restores the order of the others.
* `valid_push`, `valid_pop`, `isLE_of_pop` — a valid heap stays valid, and hands out an entry that
  orders after no other one.
* `perm_push`, `perm_pop` — nothing is lost and nothing is made up.
* `perm_swap_pop`, `Ordered.orderedOff_swap_pop` — moving the last entry to the root disturbs nothing else.
* `popWhile` — on a valid heap, a test that passes on everything before an entry that passes it
  splits the entries into the ones that pass (`of_mem_popWhile_fst`) and the ones that do not
  (`of_mem_popWhile_snd`).
* `popWhile_popWhile` — on any heap, entries may be taken away in two steps. -/

namespace PodPlacement

namespace Heap

variable {α : Type} (cmp : α → α → Ordering)

/-! ### Order along the branches -/

/-- In every pair of parent and child the parent does not order after the child. -/
def Ordered (items : Array α) : Prop :=
  ∀ j (hj : j < items.size) (hp : (j - 1) / 2 < items.size), 0 < j →
    (cmp items[(j - 1) / 2] items[j]).isLE

/-- The order of a heap around one position: every pair that does not touch position `i` is in order,
and the children of `i` are in order with the parent of `i`. -/
structure OrderedOff (items : Array α) (i : Nat) (hi : i < items.size) : Prop where
  /-- A pair that does not touch the position is in order. -/
  off : ∀ j (hj : j < items.size), 0 < j → j ≠ i → (j - 1) / 2 ≠ i →
    (cmp items[(j - 1) / 2] items[j]).isLE
  /-- Leaving the position out, its children are in order with its parent. -/
  across : ∀ j (hj : j < items.size), 0 < j → (j - 1) / 2 = i → 0 < i →
    (cmp items[(i - 1) / 2] items[j]).isLE

/-- A heap in which no entry orders after one of its children. -/
def Valid (h : Heap α) : Prop := Ordered cmp h.items

/-- The heap without entries is valid. -/
theorem valid_empty : Valid cmp (empty : Heap α) := by
  intro j hj
  simp [empty] at hj

/-- Where the last entry takes the place of the root, everything else is in order. -/
theorem Ordered.orderedOff_swap_pop {cmp : α → α → Ordering} {items : Array α} (ho : Ordered cmp items) (hs : 0 < items.size)
    (hlast : items.size - 1 < items.size)
    (hr : 0 < (items.swap 0 (items.size - 1) hs hlast).pop.size) :
    OrderedOff cmp (items.swap 0 (items.size - 1) hs hlast).pop 0 hr := by
  refine ⟨?_, ?_⟩
  · intro j hj hpos hji hpj
    simp only [Array.size_pop, Array.size_swap] at hj
    have hpair := ho j (by omega) (by omega) hpos
    grind
  · intro j hj hpos hpj h0
    omega

section Trans

variable {cmp} [Std.TransCmp cmp]

/-- The root of an ordered array orders after no entry. -/
theorem Ordered.isLE_root {items : Array α} (h : Ordered cmp items) (j : Nat) (hj : j < items.size)
    (h0 : 0 < items.size) : (cmp items[0] items[j]).isLE := by
  induction j using Nat.strongRecOn with
  | _ j ih =>
    rcases Nat.eq_zero_or_pos j with rfl | hpos
    · exact Std.ReflCmp.isLE_rfl
    · exact Std.TransCmp.isLE_trans (ih ((j - 1) / 2) (by omega) (by omega)) (h j hj (by omega) hpos)

/-- An entry that is in order with its children rises to its place. -/
theorem ordered_rise {items : Array α} {i : Nat} {hi : i < items.size}
    (h : OrderedOff cmp items i hi)
    (below : ∀ j (hj : j < items.size), 0 < j → (j - 1) / 2 = i → (cmp items[i] items[j]).isLE) :
    Ordered cmp (rise cmp items i hi) := by
  fun_induction rise cmp items i hi with
  | case1 items hi =>
    intro j hj _ hpos
    by_cases hp : (j - 1) / 2 = 0
    · have hroot := below j hj hpos hp
      simpa only [hp] using hroot
    · exact h.off j hj hpos (by omega) hp
  | case2 items i hi hne hlt ih =>
    -- The entry changes places with its parent; only the pairs around the two can be affected.
    have hle : (cmp items[i] items[(i - 1) / 2]).isLE := Ordering.isLE_of_eq_lt hlt
    have trans := @Std.TransCmp.isLE_trans _ cmp _
    refine ih ⟨?_, ?_⟩ ?_
    · intro j hj hpos hji hpj
      rw [Array.size_swap] at hj
      have hoff := h.off j hj hpos
      have hacross := h.across j hj hpos
      grind
    · intro j hj hpos hpj hi0
      rw [Array.size_swap] at hj
      have hoff := h.off j hj hpos
      have habove := h.off ((i - 1) / 2) (by omega) hi0 (by omega) (by omega)
      grind
    · intro j hj hpos hpj
      rw [Array.size_swap] at hj
      have hoff := h.off j hj hpos
      grind
  | case3 items i hi hne hlt =>
    have hle : (cmp items[(i - 1) / 2] items[i]).isLE := by
      rw [← Std.OrientedCmp.isGE_iff_isLE]
      cases hc : cmp items[i] items[(i - 1) / 2] <;> simp_all
    intro j hj _ hpos
    have hoff := h.off j hj hpos
    grind

/-- The hole moves down to the child that orders first. -/
theorem OrderedOff.swap_child {items : Array α} {i c : Nat} {hi : i < items.size}
    (h : OrderedOff cmp items i hi) (hc : c < items.size) (hpos : 0 < c) (hp : (c - 1) / 2 = i)
    (least : ∀ j (hj : j < items.size), 0 < j → (j - 1) / 2 = i → (cmp items[c] items[j]).isLE) :
    OrderedOff cmp (items.swap i c hi hc) c (by simpa using hc) := by
  refine ⟨?_, ?_⟩
  · intro j hj hj0 hjc hpj
    rw [Array.size_swap] at hj
    have hoff := h.off j hj hj0
    have hacross := h.across c hc hpos hp
    have hleast := least j hj hj0
    grind
  · intro j hj hj0 hpj _
    rw [Array.size_swap] at hj
    have hoff := h.off j hj hj0
    grind

/-- Whatever stands at the position, sinking it puts the array in order. -/
theorem ordered_sink {items : Array α} {i : Nat} {hi : i < items.size}
    (h : OrderedOff cmp items i hi) : Ordered cmp (sink cmp items i hi) := by
  fun_induction sink cmp items i hi with
  | case1 items i hi hr hlt ih =>
    refine ih (h.swap_child _ (by omega) (by omega) ?_)
    intro j hj hj0 hpj
    have hchild : j = 2 * i + 1 ∨ j = 2 * i + 2 := by omega
    rcases hchild with rfl | rfl
    · exact Std.ReflCmp.isLE_rfl
    · exact Ordering.isLE_of_eq_lt hlt
  | case2 items i hi hr hlt ih =>
    refine ih (h.swap_child _ (by omega) (by omega) ?_)
    intro j hj hj0 hpj
    have hchild : j = 2 * i + 1 ∨ j = 2 * i + 2 := by omega
    rcases hchild with rfl | rfl
    · rw [← Std.OrientedCmp.isGE_iff_isLE]
      cases hc : cmp items[2 * i + 1] items[2 * i + 2] <;> simp_all
    · exact Std.ReflCmp.isLE_rfl
  | case3 items i hi hr hl =>
    refine ordered_rise (h.swap_child hl (by omega) (by omega) ?_) ?_
    · intro j hj hj0 hpj
      have hchild : j = 2 * i + 1 := by omega
      subst hchild
      exact Std.ReflCmp.isLE_rfl
    · intro j hj hj0 hpj
      rw [Array.size_swap] at hj
      omega
  | case4 items i hi hr hl =>
    refine ordered_rise h ?_
    intro j hj hj0 hpj
    omega

end Trans

/-! ### Entries -/

variable {cmp}

/-- Rising rearranges the entries. -/
theorem perm_rise (items : Array α) (i : Nat) (hi : i < items.size) :
    (rise cmp items i hi).Perm items := by
  fun_induction rise cmp items i hi with
  | case1 => exact .refl _
  | case2 _ _ _ _ _ ih => exact ih.trans (Array.swap_perm _ _)
  | case3 => exact .refl _

/-- Sinking rearranges the entries. -/
theorem perm_sink (items : Array α) (i : Nat) (hi : i < items.size) :
    (sink cmp items i hi).Perm items := by
  fun_induction sink cmp items i hi with
  | case1 _ _ _ _ _ ih => exact ih.trans (Array.swap_perm _ _)
  | case2 _ _ _ _ _ ih => exact ih.trans (Array.swap_perm _ _)
  | case3 => exact (perm_rise _ _ _).trans (Array.swap_perm _ _)
  | case4 => exact perm_rise _ _ _

/-- A push adds one entry. -/
theorem perm_push (h : Heap α) (x : α) : (h.push cmp x).toList.Perm (x :: h.toList) := by
  have hrise : (h.push cmp x).toList.Perm (h.items.push x).toList := (perm_rise _ _ _).toList
  rw [Array.toList_push] at hrise
  exact hrise.trans (List.perm_append_singleton x h.toList)

/-- Pushing a list adds its entries. -/
theorem perm_pushAll (h : Heap α) (xs : List α) : (h.pushAll cmp xs).toList.Perm (xs ++ h.toList) := by
  induction xs generalizing h with
  | nil => exact .refl _
  | cons x xs ih =>
    refine (ih (h.push cmp x)).trans ?_
    exact ((perm_push h x).append_left xs).trans List.perm_middle

/-- The heap of a list holds its entries. -/
theorem perm_ofList (xs : List α) : (ofList cmp xs).toList.Perm xs := by
  have hall : (ofList cmp xs).toList.Perm (xs ++ []) := perm_pushAll empty xs
  rwa [List.append_nil] at hall

/-- Where the last entry takes the place of the root, the root is gone and nothing else. -/
theorem perm_swap_pop {items : Array α} (hs : 0 < items.size) (hlast : items.size - 1 < items.size) :
    (items[0] :: (items.swap 0 (items.size - 1) hs hlast).pop.toList).Perm items.toList := by
  have hswap := (Array.swap_perm hs hlast).toList
  have hne : (items.swap 0 (items.size - 1)).toList ≠ [] := by
    rw [← List.length_pos_iff]
    simpa using hs
  have hsplit : (items.swap 0 (items.size - 1)).toList =
      (items.swap 0 (items.size - 1)).pop.toList ++ [items[0]] := by
    rw [Array.toList_pop, ← List.dropLast_append_getLast hne]
    simp [List.getLast_eq_getElem]
  rw [hsplit] at hswap
  exact (List.perm_append_singleton _ _).symm.trans hswap

/-- A pop takes one entry away. -/
theorem perm_pop {h rest : Heap α} {x : α} (hp : h.pop cmp = some (x, rest)) :
    (x :: rest.toList).Perm h.toList := by
  simp only [pop, Option.dite_none_right_eq_some, Option.some.injEq, Prod.mk.injEq] at hp
  obtain ⟨hs, rfl, rfl⟩ := hp
  refine List.Perm.trans (List.Perm.cons _ ?_) (perm_swap_pop hs (by omega))
  show List.Perm (Array.toList _) _
  split
  · exact (perm_sink _ _ _).toList
  · exact .refl _

/-- A heap that hands nothing out is empty. -/
theorem toList_eq_nil_of_pop {h : Heap α} (hp : h.pop cmp = none) : h.toList = [] := by
  simp only [pop, dite_eq_right_iff, reduceCtorEq, imp_false] at hp
  exact List.eq_nil_of_length_eq_zero (by simpa [toList] using hp)

/-! ### Operations on valid heaps -/

/-- A heap stays valid under an order that agrees on its entries. -/
theorem Valid.congr {cmp' : α → α → Ordering} {h : Heap α} (hv : Valid cmp h)
    (hc : ∀ x ∈ h.toList, ∀ y ∈ h.toList, cmp' x y = cmp x y) : Valid cmp' h := by
  intro j hj hpos
  rw [hc _ (by simp [toList]) _ (by simp [toList])]
  exact hv j hj hpos

section Trans

variable [Std.TransCmp cmp]

/-- A push keeps a heap valid. -/
theorem valid_push {h : Heap α} (hv : Valid cmp h) (x : α) : Valid cmp (h.push cmp x) := by
  refine ordered_rise ⟨?_, ?_⟩ ?_
  · intro j hj hpos hji hpj
    rw [Array.size_push] at hj
    have hpair := hv j (by omega) (by omega) hpos
    grind
  · intro j hj hpos hpj
    rw [Array.size_push] at hj
    omega
  · intro j hj hpos hpj
    rw [Array.size_push] at hj
    omega

/-- Pushing a list keeps a heap valid. -/
theorem valid_pushAll {h : Heap α} (hv : Valid cmp h) (xs : List α) : Valid cmp (h.pushAll cmp xs) := by
  induction xs generalizing h with
  | nil => exact hv
  | cons x xs ih => exact ih (valid_push hv x)

/-- The heap of a list is valid. -/
theorem valid_ofList (xs : List α) : Valid cmp (ofList cmp xs) := valid_pushAll (valid_empty cmp) xs

/-- A pop keeps a heap valid. -/
theorem valid_pop {h rest : Heap α} {x : α} (hv : Valid cmp h) (hp : h.pop cmp = some (x, rest)) :
    Valid cmp rest := by
  simp only [pop, Option.dite_none_right_eq_some, Option.some.injEq, Prod.mk.injEq] at hp
  obtain ⟨hs, -, rfl⟩ := hp
  show Ordered cmp (dite _ _ _)
  split
  · exact ordered_sink (Ordered.orderedOff_swap_pop hv hs (by omega) _)
  · intro j hj
    omega

/-- What a valid heap hands out orders after no entry. -/
theorem isLE_of_pop {h rest : Heap α} {x : α} (hv : Valid cmp h) (hp : h.pop cmp = some (x, rest)) :
    ∀ y ∈ h.toList, (cmp x y).isLE := by
  simp only [pop, Option.dite_none_right_eq_some, Option.some.injEq, Prod.mk.injEq] at hp
  obtain ⟨hs, rfl, -⟩ := hp
  intro y hy
  obtain ⟨j, hj, rfl⟩ := List.mem_iff_getElem.1 hy
  exact Ordered.isLE_root hv j (by simpa [toList] using hj) hs

end Trans

/-! ### Taking the front away -/

section PopWhile

variable {test : α → Bool}

/-- Taking the front away splits the entries. -/
theorem perm_popWhile (h : Heap α) :
    ((h.popWhile cmp test).1 ++ (h.popWhile cmp test).2.toList).Perm h.toList := by
  fun_induction popWhile cmp test h with
  | case1 h hp => exact .refl _
  | case2 h x rest hp ht taken left hrest ih =>
    rw [hrest] at ih
    exact (ih.cons x).trans (perm_pop hp)
  | case3 h x rest hp ht => exact .refl _

/-- Everything taken passes the test. -/
theorem of_mem_popWhile_fst (test : α → Bool) {h : Heap α} {x : α}
    (hx : x ∈ (h.popWhile cmp test).1) : test x = true := by
  fun_induction popWhile cmp test h with
  | case1 h hp => simp at hx
  | case2 h y rest hp ht taken left hrest ih =>
    rw [hrest] at ih
    rcases List.mem_cons.1 hx with rfl | hx
    · exact ht
    · exact ih hx
  | case3 h y rest hp ht => simp at hx

/-- The front is gone after it was taken away once. -/
theorem popWhile_popWhile_snd (h : Heap α) :
    (h.popWhile cmp test).2.popWhile cmp test = ([], (h.popWhile cmp test).2) := by
  fun_induction popWhile cmp test h with
  | case1 h hp => rw [popWhile]; split <;> simp_all
  | case2 h y rest hp ht taken left hrest ih => rw [hrest] at ih; exact ih
  | case3 h y rest hp ht => rw [popWhile]; split <;> simp_all

/-- Taking away what passes a stricter test first makes no difference. -/
theorem popWhile_popWhile {test' : α → Bool} (himp : ∀ x, test x = true → test' x = true) (h : Heap α) :
    h.popWhile cmp test' = ((h.popWhile cmp test).1 ++ ((h.popWhile cmp test).2.popWhile cmp test').1,
      ((h.popWhile cmp test).2.popWhile cmp test').2) := by
  fun_induction popWhile cmp test h with
  | case1 h hp => rfl
  | case2 h y rest hp ht taken left hrest ih =>
    rw [hrest] at ih
    rw [popWhile]
    split <;> simp_all
  | case3 h y rest hp ht => rfl

/-- Where nothing passes the test, nothing is taken away. -/
theorem popWhile_eq_self {h : Heap α} (hnone : ∀ x ∈ h.toList, test x = false) :
    h.popWhile cmp test = ([], h) := by
  rw [popWhile]
  split
  · rfl
  · rename_i x rest hp
    have hx : x ∈ h.toList := (perm_pop hp).subset List.mem_cons_self
    rw [if_neg (by rw [hnone x hx]; exact Bool.false_ne_true)]

variable [Std.TransCmp cmp]

/-- What is left is a valid heap. -/
theorem valid_popWhile_snd {h : Heap α} (hv : Valid cmp h) : Valid cmp (h.popWhile cmp test).2 := by
  fun_induction popWhile cmp test h with
  | case1 h hp => exact hv
  | case2 h x rest hp ht taken left hrest ih =>
    rw [hrest] at ih
    exact ih (valid_pop hv hp)
  | case3 h x rest hp ht => exact hv

/-- Nothing that is left passes a test that holds of everything before an entry it holds of. -/
theorem of_mem_popWhile_snd (test : α → Bool) {h : Heap α} (hv : Valid cmp h)
    (down : ∀ x y, (cmp x y).isLE → test y = true → test x = true) {x : α}
    (hx : x ∈ (h.popWhile cmp test).2.toList) : test x = false := by
  fun_induction popWhile cmp test h with
  | case1 h hp => rw [toList_eq_nil_of_pop hp] at hx; simp at hx
  | case2 h y rest hp ht taken left hrest ih =>
    rw [hrest] at ih
    exact ih (valid_pop hv hp) hx
  | case3 h y rest hp ht =>
    rw [← Bool.not_eq_true]
    intro hpass
    exact ht (down y x (isLE_of_pop hv hp x hx) hpass)

end PopWhile

end Heap

end PodPlacement
