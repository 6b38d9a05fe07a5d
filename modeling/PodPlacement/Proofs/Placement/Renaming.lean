import Mathlib.Order.Monotone.Basic
import PodPlacement.Proofs.Placement.Choice

/-! # Nodes at other positions

Two clusters may hold the same active nodes at different positions, with other nodes among them that take
no part. A try does the same on both, as long as the positions decide nothing: either the nodes stand in
the same order in both clusters, or their names decide before the positions do.

* `Renaming` — how the positions of the active nodes correspond.
* `Mirrors` — a cluster holds the active nodes of another one at the corresponding positions.
* `Mirrors.place` — pods are placed on corresponding nodes at the same times, and the clusters still
  mirror each other. -/

namespace PodPlacement

variable {n m : Nat}

/-- The placement on the node at the corresponding position. -/
def Placement.rename (f : Fin n → Fin m) (p : Placement n) : Placement m := ⟨f p.node, p.start, p.finish⟩

/-- Two ascending lists of positions correspond: the second one holds the images of the first one. -/
structure Renaming (f : Fin n → Fin m) (active : List (Fin n)) (active' : List (Fin m)) : Prop where
  /-- The first list is ascending. -/
  ascending : active.Pairwise (· < ·)
  /-- The second list is ascending. -/
  ascending' : active'.Pairwise (· < ·)
  /-- A position is listed second exactly if it is the image of one that is listed first. -/
  mem_iff : ∀ j, j ∈ active' ↔ ∃ i ∈ active, f i = j

namespace Renaming

variable {f : Fin n → Fin m} {active : List (Fin n)} {active' : List (Fin m)} {i : Fin n}

/-- The image of a listed position is listed. -/
theorem mem (hf : Renaming f active active') (hi : i ∈ active) : f i ∈ active' := (hf.mem_iff _).2 ⟨i, hi, rfl⟩

/-- Either both lists are empty or none is. -/
theorem eq_nil_iff (hf : Renaming f active active') : active' = [] ↔ active = [] := by
  rw [List.eq_nil_iff_forall_not_mem, List.eq_nil_iff_forall_not_mem]
  constructor
  · intro h i hi
    exact h (f i) (hf.mem hi)
  · intro h j hj
    obtain ⟨i, hi, -⟩ := (hf.mem_iff j).1 hj
    exact h i hi

end Renaming

namespace Cluster

variable {choice : NodeChoice} {f : Fin n → Fin m} {active : List (Fin n)} {active' : List (Fin m)}
  {c : Cluster n} {c' : Cluster m} {pod : Pod} {clock : Seconds}

/-- A cluster holds the active nodes of another one at the corresponding positions. -/
structure Mirrors (choice : NodeChoice) (f : Fin n → Fin m) (active : List (Fin n))
    (active' : List (Fin m)) (c : Cluster n) (c' : Cluster m) : Prop where
  /-- The ledgers are the same. -/
  ledger : ∀ i ∈ active, c'.nodes[f i] = c.nodes[i]
  /-- Both clusters place pods in the same way. -/
  mode : c'.queue?.isSome = c.queue?.isSome
  /-- The queue of the one is complete and in order. -/
  queues : c.Queues active
  /-- So is the queue of the other one. -/
  queues' : c'.Queues active'
  /-- The nodes stand in the same order, or pods are placed at the clock and names decide. -/
  ties : StrictMono f ∨ c.queue? = none ∧ choice.ByName ∧
    ∀ i ∈ active, ∀ j ∈ active, i ≠ j → c.nodes[i].name ≠ c.nodes[j].name

namespace Mirrors

/-- Active nodes correspond to one node each. -/
theorem injective (h : Mirrors choice f active active' c c') {i j : Fin n} (hi : i ∈ active)
    (hj : j ∈ active) (hij : f i = f j) : i = j := by
  rcases h.ties with hmono | ⟨-, -, hnames⟩
  · exact hmono.injective hij
  · by_contra hne
    refine hnames i hi j hj hne ?_
    rw [← h.ledger i hi, ← h.ledger j hj, hij]

/-- Both clusters have a queue or none has. -/
theorem queue?_eq (h : Mirrors choice f active active' c c') :
    (c.queue? = none ∧ c'.queue? = none) ∨
      ∃ queue queue', c.queue? = some queue ∧ c'.queue? = some queue' := by
  have hmode := h.mode
  cases hqueue : c.queue? <;> cases hqueue' : c'.queue? <;> rw [hqueue, hqueue'] at hmode
  · exact .inl ⟨rfl, rfl⟩
  · cases hmode
  · cases hmode
  · exact .inr ⟨_, _, rfl, rfl⟩

/-- Corresponding nodes offer the same start. -/
theorem offer_eq (h : Mirrors choice f active active' c c') {i : Fin n} (hi : i ∈ active) :
    c'.offer pod clock (f i) = c.offer pod clock i := by
  rw [offer, offer, h.ledger i hi]
  rcases h.queue?_eq with ⟨hnone, hnone'⟩ | ⟨_, _, hsome, hsome'⟩
  · rw [hnone, hnone']
  · rw [hsome, hsome']

/-- Corresponding nodes come in the same order. -/
theorem trialOrder_eq (hf : Renaming f active active') (h : Mirrors choice f active active' c c')
    {i j : Fin n} (hi : i ∈ active) (hj : j ∈ active) :
    c'.trialOrder choice active' pod clock (f i) (f j) = c.trialOrder choice active pod clock i j := by
  have hties := h.ties
  have hmono : StrictMono f → compare (f i) (f j) = compare i j := by
    intro hmono
    rw [← cmp_eq_compare, ← cmp_eq_compare]
    exact hmono.cmp_map_eq i j
  rw [trialOrder, trialOrder]
  rcases h.queue?_eq with ⟨hnone, hnone'⟩ | ⟨_, _, hsome, hsome'⟩
  · rw [hnone, hnone']
    -- All active nodes are advanced before they are compared.
    have hadvanced : ∀ i ∈ active, (NodeChoice.advanceAll c'.nodes active' clock)[f i] =
        (NodeChoice.advanceAll c.nodes active clock)[i] := by
      intro i hi
      rw [getElem_advanceAll, getElem_advanceAll, if_pos (hf.mem hi), if_pos hi, h.ledger i hi]
    refine NodeChoice.ranking_congr (hadvanced i hi) (hadvanced j hj) ?_
    by_cases hij : i = j
    · left
      simp only [hij, Std.ReflCmp.compare_self]
    · refine hties.imp hmono ?_
      rintro ⟨-, hname, hnames⟩
      refine ⟨hname, ?_⟩
      rw [getElem_advanceAll, getElem_advanceAll, if_pos hi, if_pos hj]
      exact hnames i hi j hj hij
  · rw [hsome, hsome']
    rcases hties with hties | ⟨hnone, -⟩
    · simp only [NodeQueue.searchOrder, NodeQueue.order, compareLex, h.ledger i hi, h.ledger j hj,
        hmono hties]
    · rw [hsome] at hnone
      cases hnone

/-- Corresponding nodes admit a pod alike at the start they offer. -/
theorem canAdmit_eq (h : Mirrors choice f active active' c c') {i : Fin n} (hi : i ∈ active) :
    c'.nodes[f i].canAdmit pod.requests (c'.offer pod clock (f i)) =
      c.nodes[i].canAdmit pod.requests (c.offer pod clock i) := by
  rw [h.ledger i hi, h.offer_eq hi]

section Try

variable {d : Cluster n} {d' : Cluster m} {placement? : Option (Placement n)}
  {placement?' : Option (Placement m)} {p : Placement n} {p' : Placement m}

/-- A pod that is declined by all nodes of the one cluster is declined by all nodes of the other one. -/
theorem eq_none_iff (hf : Renaming f active active') (h : Mirrors choice f active active' c c')
    (htrial : Trial active pod (c.offer pod clock) c.nodes d.nodes placement?)
    (htrial' : Trial active' pod (c'.offer pod clock) c'.nodes d'.nodes placement?') :
    placement?' = none ↔ placement? = none := by
  rw [Option.eq_none_iff_forall_ne_some, Option.eq_none_iff_forall_ne_some]
  constructor
  · intro hnone p hp
    obtain ⟨hmem, hstart, -, hadmits, -⟩ := htrial.hosted p hp
    have hdeclined := htrial'.declined (Option.eq_none_iff_forall_ne_some.2 hnone) _ (hf.mem hmem)
    rw [h.canAdmit_eq hmem, ← hstart, hadmits] at hdeclined
    cases hdeclined.1
  · intro hnone p' hp'
    obtain ⟨hmem', hstart', -, hadmits', -⟩ := htrial'.hosted p' hp'
    obtain ⟨i, hi, hnode⟩ := (hf.mem_iff _).1 hmem'
    have hdeclined := htrial.declined (Option.eq_none_iff_forall_ne_some.2 hnone) i hi
    rw [← h.canAdmit_eq hi, hnode, ← hstart', hadmits'] at hdeclined
    cases hdeclined.1

/-- A pod that is placed in both clusters goes to corresponding nodes at the same times. -/
theorem eq_rename (hf : Renaming f active active') (h : Mirrors choice f active active' c c')
    (htrial : Trial active pod (c.offer pod clock) c.nodes d.nodes (some p))
    (htrial' : Trial active' pod (c'.offer pod clock) c'.nodes d'.nodes (some p'))
    (hdecision : Decision choice active c pod clock d p)
    (hdecision' : Decision choice active' c' pod clock d' p') : p' = p.rename f := by
  obtain ⟨hmem, hstart, hfinish, hadmits, -⟩ := htrial.hosted p rfl
  obtain ⟨hmem', hstart', hfinish', hadmits', -⟩ := htrial'.hosted p' rfl
  obtain ⟨i, hi, hnode⟩ := (hf.mem_iff _).1 hmem'
  -- Each of the two nodes comes first, so they correspond.
  have hsame : i = p.node := by
    rw [hstart', ← hnode, h.canAdmit_eq hi] at hadmits'
    rw [hstart, ← h.canAdmit_eq hmem] at hadmits
    have hfirst := hdecision'.first (f p.node) (hf.mem hmem) hadmits
    rw [← hnode, h.trialOrder_eq hf hi hmem] at hfirst
    exact eq_of_trialOrder hfirst (hdecision.first i hi hadmits')
  rw [hsame] at hnode
  rw [← hnode, h.offer_eq hmem, ← hstart] at hstart'
  rw [hstart', ← hfinish] at hfinish'
  obtain ⟨node', start', finish'⟩ := p'
  cases hnode
  cases hstart'
  cases hfinish'
  rfl

/-- What becomes of the node that a pod is placed on, and of the others, is the same in both clusters. -/
theorem ledger_eq (hf : Renaming f active active') (h : Mirrors choice f active active' c c')
    (htrial : Trial active pod (c.offer pod clock) c.nodes d.nodes (some p))
    (htrial' : Trial active' pod (c'.offer pod clock) c'.nodes d'.nodes (some (p.rename f)))
    (hdecision : Decision choice active c pod clock d p)
    (hdecision' : Decision choice active' c' pod clock d' (p.rename f)) :
    ∀ i ∈ active, d'.nodes[f i] = d.nodes[i] := by
  obtain ⟨hmem, -, -, -, hhost⟩ := htrial.hosted p rfl
  have hhost' : d'.nodes[f p.node] = c'.nodes[f p.node].host pod p.start :=
    (htrial'.hosted _ rfl).2.2.2.2
  intro i hi
  by_cases hip : i = p.node
  · rw [hip, hhost, hhost', h.ledger _ hmem]
  · have hfip : f i ≠ (p.rename f).node := fun heq => hip (h.injective hi hmem heq)
    have horder : c'.trialOrder choice active' pod clock (f p.node) (f i) = _ := h.trialOrder_eq hf hmem hi
    rw [hdecision.others i hi hip, hdecision'.others (f i) (hf.mem hi) hfip, h.mode, h.ledger i hi,
      h.offer_eq hi, ← horder]
    rfl

/-- Clusters that come to the same ledgers by a try still mirror each other. -/
theorem after (h : Mirrors choice f active active' c c')
    (htrial : Trial active pod (c.offer pod clock) c.nodes d.nodes placement?)
    (hmode : d.queue?.isSome = c.queue?.isSome) (hmode' : d'.queue?.isSome = c'.queue?.isSome)
    (hqueues : d.Queues active) (hqueues' : d'.Queues active')
    (hledger : ∀ i ∈ active, d'.nodes[f i] = d.nodes[i]) : Mirrors choice f active active' d d' := by
  refine ⟨hledger, by rw [hmode', hmode, h.mode], hqueues, hqueues', h.ties.imp_right ?_⟩
  rintro ⟨hnone, hname, hnames⟩
  refine ⟨?_, hname, ?_⟩
  · rw [hnone, Option.isSome_none, Option.isSome_eq_false_iff, Option.isNone_iff_eq_none] at hmode
    exact hmode
  · intro i hi j hj hij
    rw [htrial.name_eq, htrial.name_eq]
    exact hnames i hi j hj hij

end Try

/-- A pod is placed on corresponding nodes at the same times, or on none. Afterwards the clusters still
mirror each other. -/
theorem place (hf : Renaming f active active') (h : Mirrors choice f active active' c c') (pod : Pod)
    (clock : Seconds) : ∃ d d' placement?, c.place choice active pod clock = .ok (d, placement?) ∧
      c'.place choice active' pod clock = .ok (d', placement?.map (Placement.rename f)) ∧
      Mirrors choice f active active' d d' ∧ ∀ p, placement? = some p → p.node ∈ active := by
  obtain ⟨d, placement?, hplace, hmode, hqueues, htrial⟩ :=
    place_spec choice (hf.ascending.imp ne_of_lt) h.queues pod clock
  obtain ⟨d', placement?', hplace', hmode', hqueues', htrial'⟩ :=
    place_spec choice (hf.ascending'.imp ne_of_lt) h.queues' pod clock
  have hafter := h.after htrial hmode hmode' hqueues hqueues'
  have hmem : ∀ p, placement? = some p → p.node ∈ active := fun p hp => (htrial.hosted p hp).1
  have hnone := h.eq_none_iff hf htrial htrial'
  cases placement? with
  | none =>
    cases hnone.2 rfl
    refine ⟨d, d', none, hplace, hplace', hafter ?_, hmem⟩
    intro i hi
    rw [(htrial'.declined rfl (f i) (hf.mem hi)).2, (htrial.declined rfl i hi).2, h.ledger i hi,
      h.offer_eq hi]
  | some p =>
    cases placement?' with
    | none => cases hnone.1 rfl
    | some p' =>
      have hdecision := place_decision hf.ascending h.queues hplace
      have hdecision' := place_decision hf.ascending' h.queues' hplace'
      cases h.eq_rename hf htrial htrial' hdecision hdecision'
      exact ⟨d, d', some p, hplace, hplace', hafter (h.ledger_eq hf htrial htrial' hdecision hdecision'),
        hmem⟩

end Mirrors

end Cluster

end PodPlacement
