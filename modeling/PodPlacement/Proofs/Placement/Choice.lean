import PodPlacement.Proofs.Placement.Trial

/-! # Which node a pod goes to

Both ways of placing a pod look for the first node in some order among the nodes that admit it. Placing at
the clock goes by the preference of the policy, with all nodes advanced to the clock; a search goes by the
order of the queue. Both orders fall back on the positions, so no two nodes are alike in them and the
choice is determined.

* `NodeChoice.ranking` — the preference completed by the positions.
* `split_of_leastBy?` — `leastBy?` finds the first of the nodes that order first; `isLE_of_leastBy?` — of
  nodes listed by position, that is the first one in the ranking.
* `ranking_congr` — the order of two nodes depends on their ledgers and on the order of their positions, and
  not even on that if it is decided by their names.
* `Cluster.Decision`, `place_decision` — which node a pod goes to and which nodes were asked. -/

namespace PodPlacement

namespace NodeChoice

variable {n : Nat} (choice : NodeChoice) (nodes : Nodes n) (request : Resources)

/-! ### Preference -/

instance : Std.TransCmp (choice.preference nodes request) :=
  match choice with
  | leastLoaded => inferInstanceAs (Std.TransCmp (compareLex (compareOn _) (compareOn _)))
  | firstFit => { eq_swap := rfl, isLE_trans := fun _ _ => rfl }
  | bestFit =>
    inferInstanceAs (Std.TransCmp (compareLex (compareOn _) (compareLex (compareOn _) (compareOn _))))
  | earliestFree => inferInstanceAs (Std.TransCmp (NodeQueue.searchOrder nodes))

/-- The preference between nodes; of nodes that are equally good, the one listed first is preferred. -/
def ranking : Fin n → Fin n → Ordering := compareLex (choice.preference nodes request) compare

instance : Std.TransCmp (choice.ranking nodes request) := inferInstanceAs (Std.TransCmp (compareLex _ _))

/-- The name decides between nodes that are equally good otherwise. -/
def ByName : Prop := choice = leastLoaded ∨ choice = bestFit

variable {choice nodes request} {i j : Fin n}

/-- No two nodes are alike in the ranking. -/
theorem eq_of_ranking (h : choice.ranking nodes request i j = .eq) : i = j := by
  rw [ranking, compareLex, Ordering.then_eq_eq] at h
  exact Std.LawfulEqCmp.eq_of_compare h.2

/-- Where names decide, nodes that are equally good share their name. -/
theorem name_eq_of_preference (hname : choice.ByName) (h : choice.preference nodes request i j = .eq) :
    nodes[i].name = nodes[j].name := by
  rcases hname with rfl | rfl
  · rw [preference, compareLex, Ordering.then_eq_eq] at h
    exact Std.LawfulEqCmp.eq_of_compare h.2
  · rw [preference, compareLex, Ordering.then_eq_eq, compareLex, Ordering.then_eq_eq] at h
    exact Std.LawfulEqCmp.eq_of_compare h.2.2

/-- The order of two nodes depends on their ledgers and on the order of their positions. If it is decided
by names, and the nodes do not share theirs, it depends on their ledgers only. -/
theorem ranking_congr {m : Nat} {nodes' : Nodes m} {i' j' : Fin m} (hi : nodes'[i'] = nodes[i])
    (hj : nodes'[j'] = nodes[j]) (hties : compare i' j' = compare i j ∨
      choice.ByName ∧ nodes[i].name ≠ nodes[j].name) :
    choice.ranking nodes' request i' j' = choice.ranking nodes request i j := by
  rw [ranking, ranking, compareLex, compareLex]
  rcases hties with hcompare | ⟨hname, hne⟩
  · have hsame : choice.preference nodes' request i' j' = choice.preference nodes request i j := by
      cases choice <;>
        simp only [preference, NodeQueue.searchOrder, NodeQueue.order, compareLex, compareOn, hi, hj, hcompare]
    rw [hsame, hcompare]
  · have hsame : choice.preference nodes' request i' j' = choice.preference nodes request i j := by
      rcases hname with rfl | rfl <;> simp only [preference, compareLex, compareOn, hi, hj]
    -- The preference is decided, so the positions are not looked at.
    rw [hsame]
    cases hc : choice.preference nodes request i j with
    | lt | gt => rfl
    | eq => exact absurd (name_eq_of_preference hname hc) hne

/-! ### The node that orders first -/

/-- The first of the nodes that order first orders strictly before those listed before it, and no later than
those listed after it. -/
theorem split_of_leastBy? {cmp : Fin n → Fin n → Ordering} [Std.TransCmp cmp] {is : List (Fin n)}
    (h : leastBy? cmp is = some i) : ∃ before after, is = before ++ i :: after ∧
      (∀ j ∈ before, cmp i j = .lt) ∧ ∀ j ∈ after, (cmp i j).isLE := by
  cases is with
  | nil => cases h
  | cons a as =>
    rw [leastBy?, Option.some.injEq] at h
    -- The node found so far is listed before the nodes still to come.
    induction as generalizing a with
    | nil =>
      rw [List.foldl_nil] at h
      exact ⟨[], [], by rw [h]; rfl, fun _ hj => absurd hj List.not_mem_nil,
        fun _ hj => absurd hj List.not_mem_nil⟩
    | cons b bs ih =>
      rw [List.foldl_cons] at h
      by_cases hlt : cmp b a = .lt
      · rw [if_pos hlt] at h
        obtain ⟨before, after, hsplit, hbefore, hafter⟩ := ih b h
        have hib : (cmp i b).isLE := by
          have hb : b ∈ before ++ i :: after := hsplit ▸ List.mem_cons_self
          rcases List.mem_append.1 hb with hb | hb
          · exact Ordering.isLE_of_eq_lt (hbefore b hb)
          · rcases List.mem_cons.1 hb with rfl | hb
            · exact Std.ReflCmp.isLE_rfl
            · exact hafter b hb
        refine ⟨a :: before, after, by rw [hsplit]; rfl, ?_, hafter⟩
        exact List.forall_mem_cons.2 ⟨Std.TransCmp.lt_of_isLE_of_lt hib hlt, hbefore⟩
      · rw [if_neg hlt] at h
        have hab : (cmp a b).isLE := isLE_of_ne_lt hlt
        obtain ⟨before, after, hsplit, hbefore, hafter⟩ := ih a h
        cases before with
        | nil =>
          obtain ⟨rfl, rfl⟩ := List.cons.inj hsplit
          exact ⟨[], b :: bs, rfl, hbefore, List.forall_mem_cons.2 ⟨hab, hafter⟩⟩
        | cons c before =>
          obtain ⟨rfl, rfl⟩ := List.cons.inj hsplit
          obtain ⟨hia, hbefore⟩ := List.forall_mem_cons.1 hbefore
          refine ⟨a :: b :: before, after, rfl, ?_, hafter⟩
          exact List.forall_mem_cons.2 ⟨hia, List.forall_mem_cons.2
            ⟨Std.TransCmp.lt_of_lt_of_isLE hia hab, hbefore⟩⟩

/-- Of nodes listed by position, the first one that orders first comes first in the order completed by the
positions. -/
theorem isLE_of_leastBy? {cmp : Fin n → Fin n → Ordering} [Std.TransCmp cmp] {is : List (Fin n)}
    (hasc : is.Pairwise (· < ·)) (h : leastBy? cmp is = some i) :
    ∀ j ∈ is, (compareLex cmp compare i j).isLE := by
  obtain ⟨before, after, rfl, hbefore, hafter⟩ := split_of_leastBy? h
  obtain ⟨-, hrest, -⟩ := List.pairwise_append.1 hasc
  intro j hj
  rcases List.mem_append.1 hj with hj | hj
  · rw [compareLex, hbefore j hj]
    rfl
  · rcases List.mem_cons.1 hj with rfl | hj
    · exact Std.ReflCmp.isLE_rfl
    · rw [compareLex, Ordering.isLE_then_iff_and]
      refine ⟨hafter j hj, .inr ?_⟩
      rw [compare_lt_iff_lt.2 (List.rel_of_pairwise_cons hrest hj)]
      rfl

end NodeChoice

namespace Cluster

variable {n : Nat}

/-! ### Placing at the clock -/

/-- Placing at the clock takes the node that ranks first among those that admit the pod, once all of them
are advanced to the clock. The others stay advanced. -/
theorem placeNow_first {choice : NodeChoice} {active : List (Fin n)} (hasc : active.Pairwise (· < ·))
    {nodes nodes' : Nodes n} {pod : Pod} {clock : Seconds} {p : Placement n}
    (h : placeNow choice active nodes pod clock = .ok (nodes', some p)) : ∀ j ∈ active,
      (nodes[j].canAdmit pod.requests clock = true →
        (choice.ranking (NodeChoice.advanceAll nodes active clock) pod.requests p.node j).isLE) ∧
      (j ≠ p.node → nodes'[j] = nodes[j].advance clock) := by
  have hadvanced : ∀ j ∈ active, (NodeChoice.advanceAll nodes active clock)[j] = nodes[j].advance clock :=
    fun j hj => by rw [getElem_advanceAll, if_pos hj]
  rw [placeNow, NodeChoice.select] at h
  dsimp only at h
  generalize hfeas : active.filter _ = feasible at h
  cases hleast : NodeChoice.leastBy? (choice.preference (NodeChoice.advanceAll nodes active clock)
      pod.requests) feasible with
  | none =>
    rw [hleast] at h
    cases h
  | some i =>
    rw [hleast] at h
    dsimp only at h
    rw [commit] at h
    split at h
    · cases h
      intro j hj
      constructor
      · intro hadmits
        refine NodeChoice.isLE_of_leastBy? ?_ hleast j ?_
        · rw [← hfeas]
          exact hasc.filter _
        · rw [← hfeas, List.mem_filter, hadvanced j hj]
          exact ⟨hj, hadmits⟩
      · intro hji
        rw [Nodes.getElem_set_ne _ _ hji, hadvanced j hj]
    · cases h

/-! ### Both ways -/

/-- The order in which a pod is looked for a node in. -/
def trialOrder (choice : NodeChoice) (active : List (Fin n)) (c : Cluster n) (pod : Pod)
    (clock : Seconds) : Fin n → Fin n → Ordering :=
  match c.queue? with
  | none => choice.ranking (NodeChoice.advanceAll c.nodes active clock) pod.requests
  | some _ => NodeQueue.searchOrder c.nodes

/-- Nodes neither of which comes after the other are the same. -/
theorem eq_of_trialOrder {choice : NodeChoice} {active : List (Fin n)} {c : Cluster n} {pod : Pod}
    {clock : Seconds} {i j : Fin n} (hij : (c.trialOrder choice active pod clock i j).isLE)
    (hji : (c.trialOrder choice active pod clock j i).isLE) : i = j := by
  obtain ⟨nodes, queue?⟩ := c
  cases queue? with
  | none => exact NodeChoice.eq_of_ranking (eq_of_isLE_of_isLE hij hji)
  | some queue => exact NodeQueue.eq_of_searchOrder (eq_of_isLE_of_isLE hij hji)

/-- Which node a pod that is placed goes to, and what becomes of the others. -/
structure Decision (choice : NodeChoice) (active : List (Fin n)) (c : Cluster n) (pod : Pod)
    (clock : Seconds) (c' : Cluster n) (p : Placement n) : Prop where
  /-- No node that admits the pod at the start it offers comes before the one that gets it. -/
  first : ∀ j ∈ active, c.nodes[j].canAdmit pod.requests (c.offer pod clock j) = true →
    (c.trialOrder choice active pod clock p.node j).isLE
  /-- The other nodes were asked and are advanced. With a queue, that is only so for those that come before
  the one that gets the pod. -/
  others : ∀ j ∈ active, j ≠ p.node → c'.nodes[j] =
    if c.queue?.isSome = true ∧ c.trialOrder choice active pod clock p.node j = .lt then c.nodes[j]
    else c.nodes[j].advance (c.offer pod clock j)

/-- A try that places a pod makes a decision. -/
theorem place_decision {choice : NodeChoice} {active : List (Fin n)} (hasc : active.Pairwise (· < ·))
    {c c' : Cluster n} (hqueue : c.Queues active) {pod : Pod} {clock : Seconds} {p : Placement n}
    (hplace : c.place choice active pod clock = .ok (c', some p)) :
    Decision choice active c pod clock c' p := by
  obtain ⟨nodes, queue?⟩ := c
  cases queue? with
  | none =>
    obtain ⟨nodes', placement?, heq, -⟩ := placeNow_spec choice active nodes pod clock
    rw [place] at hplace
    dsimp only at hplace
    rw [heq] at hplace
    cases hplace
    have hfirst := placeNow_first hasc heq
    refine ⟨fun j hj => (hfirst j hj).1, ?_⟩
    intro j hj hne
    rw [(hfirst j hj).2 hne]
    rfl
  | some queue =>
    obtain ⟨hperm, hvalid⟩ := hqueue queue rfl
    have hnodup := hperm.nodup_iff.2 (hasc.imp ne_of_lt)
    obtain ⟨nodes', queue', placement?, heq, -, -⟩ := search_spec pod clock nodes queue [] hnodup
    rw [place] at hplace
    dsimp only at hplace
    rw [placeAhead, heq] at hplace
    cases hplace
    have hfirst := fun j hj => (search_first hnodup hvalid heq).2 p rfl j (hperm.mem_iff.2 hj)
    refine ⟨fun j hj => (hfirst j hj).1, ?_⟩
    intro j hj hne
    rw [(hfirst j hj).2 hne]
    simp only [trialOrder, offer, Option.isSome_some, true_and]

end Cluster

end PodPlacement
