import PodPlacement.Proofs.Simulation.Runs

/-! # The next event

When no pod could be placed, the clock moves to the next event. That is the one of least rank among the
instants ahead at which a pod is submitted or finishes, and nothing else about the pending pods matters:
neither how they are arranged, nor which of them are submitted later.

* `IsEvent` — the events ahead.
* `nextEvent?_eq_some` — the next event is the least of them.
* `nextEvent?_eq_of_lt`, `nextEvent?_congr` — pending pods with the same events have the same next one. -/

namespace PodPlacement

namespace Simulation

variable {n : Nat}

/-- An instant ahead of the clock at which a pending pod is submitted or a pod on an active node
finishes. -/
structure IsEvent (pending : List Pod) (nodes : Nodes n) (active : List (Fin n)) (clock t : Seconds) :
    Prop where
  /-- The instant is ahead. -/
  ahead : clock < t
  /-- Something happens then. -/
  occurs : (∃ pod ∈ pending, pod.submit = t) ∨ ∃ i ∈ active, ∃ q ∈ nodes[i].pods, q.finish = t

variable {pending pending' : List Pod} {nodes : Nodes n} {active : List (Fin n)}
  {clock event t : Seconds}

/-- The next submission ranks no higher than any submission that is ahead. -/
theorem rank_le_of_nextSubmit? (h : nextSubmit? pending clock = some event) {pod : Pod}
    (hpod : pod ∈ pending) (hahead : clock < pod.submit) : event.rank ≤ pod.submit.rank := by
  apply Ledger.rank_le_of_earliest? h
  rw [List.mem_filter]
  exact ⟨List.mem_map_of_mem hpod, decide_eq_true hahead⟩

/-- The next completion ranks no higher than any completion that is ahead. -/
theorem rank_le_of_nextCompletion? (h : nextCompletion? nodes active clock = some event) {i : Fin n}
    (hi : i ∈ active) {q : RunningPod} (hq : q ∈ nodes[i].pods) (hahead : clock < q.finish) :
    event.rank ≤ q.finish.rank := by
  have hmem : q.finish ∈ (nodes[i].running.toList.map RunningPod.finish).filter
      fun t => decide (clock < t) := by
    rw [List.mem_filter]
    exact ⟨List.mem_map_of_mem hq, decide_eq_true hahead⟩
  cases hnext : nodes[i].nextCompletionAfter clock with
  | none =>
    rw [Ledger.nextCompletionAfter, Ledger.earliest?_eq_none] at hnext
    rw [hnext] at hmem
    cases hmem
  | some u =>
    have hfirst := Ledger.rank_le_of_earliest? h u (List.mem_filterMap.2 ⟨i, hi, hnext⟩)
    exact hfirst.trans (Ledger.rank_le_of_earliest? hnext _ hmem)

/-- The next event ranks no higher than any event that is ahead. -/
theorem rank_le_of_nextEvent? (h : nextEvent? pending nodes active clock = some event)
    (ht : IsEvent pending nodes active clock t) : event.rank ≤ t.rank := by
  obtain ⟨hahead, hoccurs⟩ := ht
  rw [nextEvent?] at h
  cases hs : nextSubmit? pending clock with
  | none =>
    rw [hs] at h
    rcases hoccurs with ⟨pod, hpod, rfl⟩ | ⟨i, hi, q, hq, rfl⟩
    · exact absurd hahead (of_nextSubmit?_eq_none hs pod hpod)
    · exact rank_le_of_nextCompletion? h hi hq hahead
  | some a =>
    cases hc : nextCompletion? nodes active clock with
    | none =>
      rw [hs, hc, Option.some.injEq] at h
      subst h
      rcases hoccurs with ⟨pod, hpod, rfl⟩ | ⟨i, hi, q, hq, rfl⟩
      · exact rank_le_of_nextSubmit? hs hpod hahead
      · exact absurd hahead (of_nextCompletion?_eq_none hc i hi q hq)
    | some b =>
      have ha := (Binary64.lt_iff.1 (of_nextSubmit? hs).1).2.1
      have hb := (Binary64.lt_iff.1 (of_nextCompletion? hc).1).2.1
      obtain ⟨hmina, hminb⟩ := Binary64.rank_minNum_le ha hb
      rw [hs, hc, Option.some.injEq] at h
      subst h
      rcases hoccurs with ⟨pod, hpod, rfl⟩ | ⟨i, hi, q, hq, rfl⟩
      · exact hmina.trans (rank_le_of_nextSubmit? hs hpod hahead)
      · exact hminb.trans (rank_le_of_nextCompletion? hc hi hq hahead)

/-- The next event is the one of least rank. -/
theorem nextEvent?_eq_some : nextEvent? pending nodes active clock = some event ↔
    IsEvent pending nodes active clock event ∧
      ∀ t, IsEvent pending nodes active clock t → event.rank ≤ t.rank := by
  constructor
  · intro h
    obtain ⟨hahead, hoccurs⟩ := of_nextEvent? h
    exact ⟨⟨hahead, hoccurs⟩, fun t => rank_le_of_nextEvent? h⟩
  · rintro ⟨hevent, hleast⟩
    cases h : nextEvent? pending nodes active clock with
    | none =>
      obtain ⟨hsubmits, hcompletions⟩ := of_nextEvent?_eq_none h
      rcases hevent.occurs with ⟨pod, hpod, rfl⟩ | ⟨i, hi, q, hq, rfl⟩
      · exact absurd hevent.ahead (hsubmits pod hpod)
      · exact absurd hevent.ahead (hcompletions i hi q hq)
    | some event' =>
      -- Each of the two ranks no higher than the other.
      obtain ⟨hahead', hoccurs'⟩ := of_nextEvent? h
      have hle := rank_le_of_nextEvent? h hevent
      rw [Binary64.rank_injective (le_antisymm hle (hleast event' ⟨hahead', hoccurs'⟩))]

/-- There is no next event exactly if no event is ahead. -/
theorem nextEvent?_eq_none : nextEvent? pending nodes active clock = none ↔
    ∀ t, ¬ IsEvent pending nodes active clock t := by
  constructor
  · rintro h t ⟨hahead, hoccurs⟩
    obtain ⟨hsubmits, hcompletions⟩ := of_nextEvent?_eq_none h
    rcases hoccurs with ⟨pod, hpod, rfl⟩ | ⟨i, hi, q, hq, rfl⟩
    · exact hsubmits pod hpod hahead
    · exact hcompletions i hi q hq hahead
  · intro hno
    cases h : nextEvent? pending nodes active clock with
    | none => rfl
    | some event => exact absurd (nextEvent?_eq_some.1 h).1 (hno event)

/-- If the same events are ahead before `t`, and the next one is before `t`, then it is the same. -/
theorem nextEvent?_eq_of_lt (hsame : ∀ u, u < t →
      (IsEvent pending nodes active clock u ↔ IsEvent pending' nodes active clock u))
    (h : nextEvent? pending nodes active clock = some event) (hlt : event < t) :
    nextEvent? pending' nodes active clock = some event := by
  obtain ⟨hevent, hleast⟩ := nextEvent?_eq_some.1 h
  refine nextEvent?_eq_some.2 ⟨(hsame event hlt).1 hevent, ?_⟩
  intro u hu
  -- An event that ranked lower would be before `t` as well.
  by_contra hrank
  have hle : u ≤ event := by
    apply Binary64.le_of_rank_le (le_of_not_ge hrank)
    exact Binary64.le_refl (Binary64.lt_iff.1 hlt).1
  exact hrank (hleast u ((hsame u (Binary64.lt_of_le_of_lt hle hlt)).2 hu))

/-- The next event depends on the events ahead only, whatever the positions of the nodes are. -/
theorem nextEvent?_congr {m : Nat} {nodes' : Nodes m} {active' : List (Fin m)}
    (hsame : ∀ u, IsEvent pending nodes active clock u ↔ IsEvent pending' nodes' active' clock u) :
    nextEvent? pending nodes active clock = nextEvent? pending' nodes' active' clock := by
  cases h : nextEvent? pending' nodes' active' clock with
  | none =>
    rw [nextEvent?_eq_none] at *
    exact fun u hu => h u ((hsame u).1 hu)
  | some event =>
    rw [nextEvent?_eq_some] at *
    exact ⟨(hsame event).2 h.1, fun u hu => h.2 u ((hsame u).1 hu)⟩

/-- How the pending pods are arranged does not matter. -/
theorem nextEvent?_perm (hperm : pending.Perm pending') :
    nextEvent? pending nodes active clock = nextEvent? pending' nodes active clock := by
  apply nextEvent?_congr
  intro u
  constructor
  · rintro ⟨hahead, hoccurs⟩
    simp only [hperm.mem_iff] at hoccurs
    exact ⟨hahead, hoccurs⟩
  · rintro ⟨hahead, hoccurs⟩
    simp only [← hperm.mem_iff] at hoccurs
    exact ⟨hahead, hoccurs⟩

end Simulation

end PodPlacement
