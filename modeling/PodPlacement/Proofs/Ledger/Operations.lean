import PodPlacement.Proofs.Ledger.Advance

/-! # Operations of a ledger

A ledger does two things with what is available: it gives out an admitted request, and it takes one back.
Advancing takes back what the completed pods hold, one after the other; starting a pod gives out its
request.

* `Ledger.Invariant` — what advancing and starting admitted pods preserve.
* `Account` — a relation between capacity, available and held amounts that each operation preserves.
* `Account.invariant` — then advancing and starting pods preserve it on a ledger. -/

namespace PodPlacement

/-- A property of ledgers that advancing and starting admitted pods preserve. It may depend on the number
of pods started so far, and on what they ask for. -/
structure Ledger.Invariant (K : Resources → Prop) (Q : Nat → Ledger → Prop) : Prop where
  /-- Advancing preserves the property. -/
  advance : ∀ {count : Nat} {l : Ledger} (t : Seconds), Q count l → Q count (l.advance t)
  /-- Starting an admitted pod preserves the property. -/
  start : ∀ {count : Nat} {l : Ledger} {p : RunningPod}, K p.request → Q count l →
    l.refusal? p.request = none → Q (count + 1) (l.start p)

/-- A relation between the capacity of a ledger, what is available and what is held, that each operation
preserves for requests with a property. It may depend on how many pods were started and how many
operations were made, as long as there are no more pods than `limit`. -/
structure Account (limit : Nat) (K : Resources → Prop)
    (C : (starts operations : Nat) → (capacity available : Resources) → List Resources → Prop) :
    Prop where
  /-- The order of what is held does not matter. -/
  perm : ∀ {starts operations capacity available held held'},
    C starts operations capacity available held → held.Perm held' →
      C starts operations capacity available held'
  /-- Taking back what was held preserves the relation. -/
  release : ∀ {starts operations capacity available r held},
    C starts operations capacity available (r :: held) → starts ≤ limit → operations ≤ 2 * limit →
      C starts (operations + 1) capacity (available + r) held
  /-- Giving out an admitted request preserves the relation. -/
  take : ∀ {starts operations capacity available r held},
    C starts operations capacity available held → K r → starts ≤ limit → operations ≤ 2 * limit →
      r.shortage? available = none →
        C (starts + 1) (operations + 1) capacity (available - r) (r :: held)

namespace Account

variable {limit : Nat} {K : Resources → Prop}
  {C : (starts operations : Nat) → (capacity available : Resources) → List Resources → Prop}
  (h : Account limit K C)

include h

/-- Taking back several requests in turn preserves the relation. -/
theorem releaseAll {starts operations : Nat} {capacity available : Resources} {held : List Resources}
    (rs : List Resources) (hC : C starts operations capacity available (rs ++ held))
    (hstarts : starts ≤ limit) (hops : operations + rs.length ≤ 2 * limit) :
    C starts (operations + rs.length) capacity (rs.foldl (· + ·) available) held := by
  -- Every request that is taken back is one operation, so the number of operations varies.
  induction rs generalizing operations available with
  | nil => exact hC
  | cons r rs ih =>
    rw [List.length_cons] at hops ⊢
    have hrest := ih (h.release hC hstarts (by omega)) (by omega)
    rwa [Nat.add_assoc, Nat.add_comm 1] at hrest

/-- The relation is an invariant of ledgers. Each pod costs two operations; for pods that run, the one at
the end is still to come. -/
theorem invariant : Ledger.Invariant K fun count l => count ≤ limit → ∃ operations,
    operations + l.requests.length = 2 * count ∧
      C count operations l.capacity l.available l.requests where
  advance := by
    intro count l t hl hcount
    obtain ⟨operations, hops, hC⟩ := hl hcount
    -- What the completed pods hold can be moved to the front, from where it is taken back.
    have hperm := (Ledger.completedBy_perm l t).map RunningPod.request
    rw [List.map_append] at hperm
    have hlength := hperm.length_eq
    rw [List.length_append] at hlength
    have hall := h.releaseAll ((l.completedBy t).1.map RunningPod.request) (h.perm hC hperm.symm)
      hcount (by unfold Ledger.requests at hops; omega)
    rw [List.foldl_map, ← Ledger.available_advance] at hall
    refine ⟨_, ?_, hall⟩
    unfold Ledger.requests at hops ⊢
    omega
  start := by
    intro count l p hp hl hfit hcount
    obtain ⟨operations, hops, hC⟩ := hl (by omega)
    have hperm := (Ledger.pods_start_perm l p).map RunningPod.request
    have hlength := hperm.length_eq
    rw [List.map_cons, List.length_cons] at hlength
    have htaken := h.take hC hp (by omega) (by omega) hfit
    refine ⟨operations + 1, ?_, h.perm htaken hperm.symm⟩
    unfold Ledger.requests at hops ⊢
    omega

end Account

end PodPlacement
