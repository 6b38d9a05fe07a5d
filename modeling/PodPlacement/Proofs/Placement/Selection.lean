import Mathlib.Data.Prod.Lex
import Mathlib.Data.String.Basic
import PodPlacement.Proofs.Ledger.Balance
import PodPlacement.Proofs.Placement.Choice

/-! # The node that is selected

Each rule for choosing a node looks for the least of something, and the rules differ in what that is: a
key of up to four parts. All candidates are advanced before the keys are read, so a node that is selected
has the least key as the ledgers are then, among the nodes that admit the request.

* `key` — the key of a node; `compare_key` — the preference between nodes is the order of their keys, except
  that the first fit prefers none and takes the one that is listed first.
* `least_of_leastBy?` — of the candidates that pass a test, the first one with the least key is found.
* `Selected` — what it means to select a node; `select_least` — what `select` does. -/

namespace PodPlacement

namespace NodeChoice

variable {n : Nat}

/-! ### Keys -/

/-- What nodes are compared by, the first part before the others. -/
abbrev Key := Int ×ₗ Int ×ₗ String ×ₗ Nat

/-- The key of a node. A double counts by its place in the total order. -/
def key (choice : NodeChoice) (nodes : Nodes n) (candidates : List (Fin n)) (request : Resources)
    (i : Fin n) : Key :=
  match choice with
  | leastLoaded => toLex (nodes[i].cpuLoad.rank, toLex (0, toLex (nodes[i].name, 0)))
  | firstFit => toLex (0, toLex (0, toLex ("", candidates.idxOf i)))
  | bestFit =>
    toLex ((nodes[i].available.cpu - request.cpu).rank,
      toLex (memoryLeft nodes[i] request, toLex (nodes[i].name, 0)))
  | earliestFree =>
    toLex (nodes[i].earliestFree.rank, toLex (-nodes[i].available.cpu.rank, toLex ("", i.val)))

variable {choice : NodeChoice} {nodes : Nodes n} {candidates : List (Fin n)} {request : Resources}
  {i j : Fin n}

/-- One key comes no later than another exactly if it is at most the other one. -/
theorem isLE_compare_key {a b : Key} : (compare a b).isLE ↔ a ≤ b :=
  Ordering.ne_gt_iff_isLE.symm.trans compare_le_iff_le

/-- Pairs are compared by their first parts, and then by the second ones. -/
theorem compare_toLex {α β : Type} [Ord α] [Ord β] (a a' : α) (b b' : β) :
    compare (toLex (a, b)) (toLex (a', b')) = (compare a a').then (compare b b') := rfl

/-- Except for the first fit, the preference between two nodes is the order of their keys. -/
theorem compare_key (h : choice ≠ firstFit) :
    compare (choice.key nodes candidates request i) (choice.key nodes candidates request j) =
      choice.preference nodes request i j := by
  cases choice with
  | firstFit => exact absurd rfl h
  | leastLoaded =>
    simp only [key, compare_toLex, Std.ReflCmp.compare_self, Ordering.then_eq, Ordering.eq_then]
    rfl
  | bestFit =>
    simp only [key, compare_toLex, Std.ReflCmp.compare_self, Ordering.then_eq]
    rfl
  | earliestFree =>
    have hreverse (a b : Int) : compare (-a) (-b) = compare b a := by
      simp only [compare, compareOfLessAndEq, Int.neg_lt_neg_iff, Int.neg_inj, eq_comm]
    simp only [key, compare_toLex, Std.ReflCmp.compare_self, Ordering.eq_then, hreverse,
      ← Ordering.then_assoc]
    rfl

/-- For the first fit the keys are ordered as the candidates are listed. -/
theorem key_firstFit_le : firstFit.key nodes candidates request i ≤ firstFit.key nodes candidates request j ↔
    candidates.idxOf i ≤ candidates.idxOf j := by
  rw [← isLE_compare_key]
  simp only [key, compare_toLex, Std.ReflCmp.compare_self, Ordering.eq_then, Nat.isLE_compare]

/-! ### Selection -/

/-- What it means to select a node among candidates: the nodes before and after, and the choice. -/
structure Selected (choice : NodeChoice) (nodes nodes' : Nodes n) (candidates : List (Fin n))
    (request : Resources) (clock : Seconds) (chosen : Option (Fin n)) : Prop where
  /-- No node is selected exactly if none admits the request. -/
  none_iff : chosen = none ↔ ∀ j ∈ candidates, nodes[j].canAdmit request clock = false
  /-- A node that is selected admits the request, and of all candidates that do it is the first one with
  the least key. -/
  least : ∀ i, chosen = some i → nodes[i].canAdmit request clock = true ∧
    ∃ before after, candidates = before ++ i :: after ∧
      (∀ j ∈ before, nodes[j].canAdmit request clock = true →
        choice.key nodes' candidates request i < choice.key nodes' candidates request j) ∧
      ∀ j ∈ after, nodes[j].canAdmit request clock = true →
        choice.key nodes' candidates request i ≤ choice.key nodes' candidates request j
  /-- Every candidate is advanced to the clock. -/
  advanced : ∀ j ∈ candidates, nodes'[j] = nodes[j].advance clock
  /-- The other nodes stay as they are. -/
  others : ∀ j, j ∉ candidates → nodes'[j] = nodes[j]

/-- There is a node that orders first as soon as there are nodes. -/
theorem leastBy?_eq_none {cmp : Fin n → Fin n → Ordering} {is : List (Fin n)} :
    leastBy? cmp is = none ↔ is = [] := by
  refine ⟨Cluster.eq_nil_of_leastBy?, ?_⟩
  rintro rfl
  rfl

/-- If a part of a list is split at an element, so is the list. -/
theorem exists_split_of_filter {α : Type} {p : α → Bool} {l before after : List α} {a : α}
    (h : l.filter p = before ++ a :: after) : p a = true ∧ ∃ front back, l = front ++ a :: back ∧
      (∀ b ∈ front, p b = true → b ∈ before) ∧ ∀ b ∈ back, p b = true → b ∈ after := by
  obtain ⟨front, rest, rfl, hfront, hrest⟩ := List.filter_eq_append_iff.1 h
  obtain ⟨skipped, back, rfl, hskipped, ha, hback⟩ := List.filter_eq_cons_iff.1 hrest
  refine ⟨ha, front ++ skipped, back, by rw [List.append_assoc], ?_, ?_⟩
  · intro b hb hpb
    rcases List.mem_append.1 hb with hb | hb
    · exact hfront ▸ List.mem_filter.2 ⟨hb, hpb⟩
    · exact absurd hpb (hskipped b hb)
  · intro b hb hpb
    exact hback ▸ List.mem_filter.2 ⟨hb, hpb⟩

/-- The first of the candidates that pass a test has the least key for the first fit. -/
theorem idxOf_le_idxOf {test : Fin n → Bool} {front back : List (Fin n)} (htest : test i = true)
    (hfront : ∀ k ∈ front, test k = false) (hj : test j = true) :
    (front ++ i :: back).idxOf i ≤ (front ++ i :: back).idxOf j := by
  have hnot : ∀ {k}, test k = true → k ∉ front := fun hk hmem => by simp [hfront _ hmem] at hk
  rw [List.idxOf_append_of_notMem (hnot htest), List.idxOf_append_of_notMem (hnot hj),
    List.idxOf_cons_self]
  exact Nat.add_le_add_left (Nat.zero_le _) _

/-- Of the candidates that pass a test, the first of the preferred ones is the first one with the least
key. -/
theorem least_of_leastBy? {test : Fin n → Bool}
    (h : leastBy? (choice.preference nodes request) (candidates.filter test) = some i) :
    test i = true ∧ ∃ before after, candidates = before ++ i :: after ∧
      (∀ j ∈ before, test j = true →
        choice.key nodes candidates request i < choice.key nodes candidates request j) ∧
      ∀ j ∈ after, test j = true →
        choice.key nodes candidates request i ≤ choice.key nodes candidates request j := by
  obtain ⟨before, after, hsplit, hbefore, hafter⟩ := split_of_leastBy? h
  obtain ⟨htest, front, back, hcandidates, hfront, hback⟩ := exists_split_of_filter hsplit
  refine ⟨htest, front, back, hcandidates, ?_, ?_⟩
  · intro j hj htestj
    have hlt := hbefore j (hfront j hj htestj)
    by_cases hchoice : choice = firstFit
    · subst hchoice
      cases hlt
    · rwa [← compare_lt_iff_lt, compare_key hchoice]
  · intro j hj htestj
    have hle := hafter j (hback j hj htestj)
    by_cases hchoice : choice = firstFit
    · subst hchoice
      have hnone : ∀ k ∈ front, test k = false := fun k hk =>
        Bool.eq_false_iff.2 fun htestk => by cases hbefore k (hfront k hk htestk)
      rw [key_firstFit_le, hcandidates]
      exact idxOf_le_idxOf htest hnone htestj
    · rwa [← compare_key hchoice, isLE_compare_key] at hle

/-- Selecting a node takes the first one with the least key among the candidates that admit the request, with
all candidates advanced to the clock. -/
theorem select_least (choice : NodeChoice) (nodes : Nodes n) (candidates : List (Fin n))
    (request : Resources) (clock : Seconds) :
    Selected choice nodes (choice.select nodes candidates request clock).1 candidates request clock
      (choice.select nodes candidates request clock).2 := by
  have hadvanced : ∀ j ∈ candidates, (advanceAll nodes candidates clock)[j] = nodes[j].advance clock :=
    fun j hj => by rw [Cluster.getElem_advanceAll, if_pos hj]
  have hadmits : ∀ j ∈ candidates, ((advanceAll nodes candidates clock)[j].refusal? request).isNone =
      nodes[j].canAdmit request clock := fun j hj => by rw [hadvanced j hj, Ledger.canAdmit]
  refine ⟨?_, ?_, hadvanced, ?_⟩
  · rw [select, leastBy?_eq_none, List.filter_eq_nil_iff]
    refine forall₂_congr fun j hj => ?_
    rw [hadmits j hj, Bool.not_eq_true]
  · intro i hi
    obtain ⟨htest, before, after, rfl, hbefore, hafter⟩ := least_of_leastBy? hi
    refine ⟨?_, before, after, rfl, ?_, ?_⟩
    · rwa [hadmits i (by simp)] at htest
    · intro j hj hadmitsj
      exact hbefore j hj (by rwa [hadmits j (by simp [hj])])
    · intro j hj hadmitsj
      exact hafter j hj (by rwa [hadmits j (by simp [hj])])
  · intro j hj
    exact (Cluster.getElem_advanceAll _ _ _ _).trans (if_neg hj)

-- Two idle nodes and one with a core in use until 5, which is listed first: the load is least on `a` and on
-- `b`, the least is left over on `c`, and of the two that are free at once one comes first by position.
example :
    let nodes : Nodes 3 := #v[.idle "b" (.ofCpu 2), .idle "a" (.ofCpu 2),
      (Ledger.idle "c" (.ofCpu 2)).host (.ofCores 7 0 5 1) 0]
    [leastLoaded, firstFit, bestFit, earliestFree].map
      (fun choice => (choice.select nodes [2, 0, 1] (.ofCpu 1) 0).2) = [some 1, some 2, some 2, some 0] := by
  decide +kernel

end NodeChoice

end PodPlacement
