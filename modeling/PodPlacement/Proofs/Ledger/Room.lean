import Mathlib.Algebra.BigOperators.Ring.List
import PodPlacement.Proofs.Ledger.Balance
import PodPlacement.Proofs.Number.Monotone
import PodPlacement.Proofs.Placement.Trial

/-! # Room for requests to come

A ledger has room for some requests if they fit into its capacity next to everything that runs on it. Such
a ledger admits each of them, at any instant, and whatever becomes of one of them it has room for the
others: if the ledger hosts it, its share of the room is taken, and if not, it is free.

* `Roomy.canAdmit`, `Roomy.advance`, `Roomy.host` — what a ledger with room does.
* `sum_amount_cpu_le` — a sum of whole cores that fits as it is computed fits as it is.
* `roomy_of_isIdle` — an idle node has room for requests whose sum fits into its capacity. -/

namespace PodPlacement

namespace Ledger

/-! ### One resource -/

/-- Under the meter, the ledger is balanced, and what it holds and the requests are together within its
capacity. -/
structure Room (m : Meter) (l : Ledger) (rs : List Resources) : Prop where
  /-- The ledger is balanced. -/
  balanced : l.Balanced m
  /-- The requests fit next to what runs. -/
  fits : m.held l.pods + (rs.map m.amount).sum ≤ m.amount l.capacity

namespace Room

variable {m : Meter} {l : Ledger} {r : Resources} {rs rs' : List Resources}

/-- There is room for a part of the requests there is room for. -/
theorem of_subperm (h : l.Room m rs) (hsub : rs'.Subperm rs) : l.Room m rs' :=
  ⟨h.balanced, (Nat.add_le_add_left (m.sum_amount_le hsub) _).trans h.fits⟩

/-- As much is available as the next request asks for. -/
theorem amount_le (h : l.Room m (r :: rs)) : m.amount r ≤ m.amount l.available := by
  have htotal := h.balanced.total
  have hfits := h.fits
  rw [List.map_cons, List.sum_cons] at hfits
  omega

/-- Advancing a ledger leaves it its room. -/
theorem advance (h : l.Room m rs) (t : Seconds) : (l.advance t).Room m rs := by
  have hheld := m.held_perm (completedBy_perm l t)
  rw [m.held_append] at hheld
  have hfits := h.fits
  exact ⟨h.balanced.advance t, by rw [capacity_advance]; omega⟩

/-- A ledger that hosts a pod has room for the others. -/
theorem host {pod : Pod} (h : l.Room m (pod.requests :: rs)) (hexact : m.Exact pod.requests) {t : Seconds}
    (hadmits : l.canAdmit pod.requests t = true) : (l.host pod t).Room m rs := by
  have hthen := h.advance t
  have hfits := hthen.fits
  refine ⟨hthen.balanced.start hexact (canAdmit_iff.1 hadmits), ?_⟩
  rw [m.held_perm (pods_host_perm l pod t), Meter.held_cons, capacity_host]
  rw [List.map_cons, List.sum_cons, capacity_advance] at hfits
  show m.amount pod.requests + _ + _ ≤ _
  omega

end Room

/-! ### All resources -/

/-- The ledger has room for the requests under each meter. -/
structure Roomy (l : Ledger) (rs : List Resources) : Prop where
  /-- There is CPU for them. -/
  cpu : l.Room .cpu rs
  /-- There are GPUs for them. -/
  gpu : l.Room .gpu rs
  /-- There is memory for them. -/
  memory : l.Room .memory rs

namespace Roomy

variable {l : Ledger} {r : Resources} {rs rs' : List Resources}

/-- There is room for a part of the requests there is room for. -/
theorem of_subperm (h : l.Roomy rs) (hsub : rs'.Subperm rs) : l.Roomy rs' :=
  ⟨h.cpu.of_subperm hsub, h.gpu.of_subperm hsub, h.memory.of_subperm hsub⟩

/-- Advancing a ledger leaves it its room. -/
theorem advance (h : l.Roomy rs) (t : Seconds) : (l.advance t).Roomy rs :=
  ⟨h.cpu.advance t, h.gpu.advance t, h.memory.advance t⟩

/-- A ledger admits what it has room for at any instant. -/
theorem canAdmit (h : l.Roomy (r :: rs)) (hr : r.WholeCores) (t : Seconds) : l.canAdmit r t = true := by
  have hthen := h.advance t
  exact canAdmit_iff.2 ((Resources.shortage?_eq_none_iff hr hthen.cpu.balanced.available).2
    ⟨hthen.cpu.amount_le, hthen.gpu.amount_le, hthen.memory.amount_le⟩)

/-- A ledger that hosts a pod has room for the others. -/
theorem host {pod : Pod} (h : l.Roomy (pod.requests :: rs)) (hpod : pod.requests.WholeCores)
    (t : Seconds) : (l.host pod t).Roomy rs :=
  have hadmits := h.canAdmit hpod t
  ⟨h.cpu.host hpod hadmits, h.gpu.host trivial hadmits, h.memory.host trivial hadmits⟩

end Roomy

end Ledger

/-! ### Requests whose sum fits -/

/-- A whole number that is at most the sum of two is at most the sum of doubles for them. -/
theorem Binary64.ofNat_le_add {x y : Binary64} {k b m : Nat} (hk : k ≤ 2 ^ 53) (hx : .ofNat k ≤ x)
    (hy : y.IsCount b) (hb : b ≤ 2 ^ 53) (hm : m ≤ 2 ^ 53) (hle : m ≤ k + b) : .ofNat m ≤ x + y := by
  -- With as much of the first summand as is needed, the sum is exact.
  have hpart : (Binary64.ofNat (m - b)).IsCount (m - b) := isCount_ofNat (by omega)
  have hsum : .ofNat m ≤ .ofNat (m - b) + y :=
    ((isCount_ofNat hm).le_iff_le (hpart.add hy (by omega))).2 (by omega)
  have hle : .ofNat (m - b) ≤ x :=
    Binary64.le_trans ((hpart.le_iff_le (isCount_ofNat hk)).2 (by omega)) hx
  exact Binary64.le_trans hsum (Binary64.add_le_add_right hle hy.1)

namespace Resources

variable {rs : List Resources}

/-- The sum of some amounts is not cut at the limits of GPUs and memory. -/
structure SumsUncut (rs : List Resources) : Prop where
  /-- The GPUs are not cut. -/
  gpu : (sum rs).gpu.val = (rs.map fun r => r.gpu.val).sum
  /-- The memory is not cut. -/
  memory : (sum rs).memory.val = (rs.map fun r => r.memory.val).sum

/-- However amounts of whole cores are rounded as they add up, the sum is at least any number of cores that
they come to and that is exact. -/
theorem ofNat_le_cpu_foldl (hrs : ∀ r ∈ rs, r.WholeCores) {a : Resources} {k m : Nat} (hk : k ≤ 2 ^ 53)
    (ha : .ofNat k ≤ a.cpu) (hm : m ≤ 2 ^ 53)
    (hle : m * unitsPerOne ≤ k * unitsPerOne + (rs.map Meter.cpu.amount).sum) :
    .ofNat m ≤ (rs.foldl (· + ·) a).cpu := by
  induction rs generalizing a k with
  | nil =>
    rw [List.map_nil, List.sum_nil, Nat.add_zero] at hle
    have hmk := Nat.le_of_mul_le_mul_right hle Binary64.unitsPerOne_pos
    exact Binary64.le_trans (((Binary64.isCount_ofNat hm).le_iff_le (Binary64.isCount_ofNat hk)).2 hmk) ha
  | cons r rs ih =>
    obtain ⟨⟨b, hb, hcount⟩, hrs⟩ := List.forall_mem_cons.1 hrs
    have hamount : Meter.cpu.amount r = b * unitsPerOne := Meter.toNat_toUnits hcount
    rw [List.map_cons, List.sum_cons, hamount, ← Nat.add_assoc, ← Nat.add_mul] at hle
    have hstep {i : Nat} (hi : i ≤ 2 ^ 53) (hikb : i ≤ k + b) : .ofNat i ≤ (a + r).cpu :=
      Binary64.ofNat_le_add hk ha hcount (by omega) hi hikb
    by_cases hkb : k + b ≤ 2 ^ 53
    · exact ih hrs hkb (hstep hkb (Nat.le_refl _)) hle
    · exact ih hrs (Nat.le_refl _) (hstep (Nat.le_refl _) (by omega))
        ((Nat.mul_le_mul_right _ hm).trans (Nat.le_add_right _ _))

/-- If the sum of some amounts of whole cores fits into whole cores, as it is computed and up to the
tolerance, then they come to no more. -/
theorem sum_amount_cpu_le (hrs : ∀ r ∈ rs, r.WholeCores) {capacity : Resources}
    (hcapacity : capacity.WholeCores) (hfits : (sum rs).cpu ≤ capacity.cpu + cpuTolerance) :
    (rs.map Meter.cpu.amount).sum ≤ Meter.cpu.amount capacity := by
  obtain ⟨k, hk, hcount⟩ := hcapacity
  have hdvd : unitsPerOne ∣ (rs.map Meter.cpu.amount).sum := by
    refine List.dvd_sum fun u hu => ?_
    obtain ⟨r, hr, rfl⟩ := List.mem_map.1 hu
    obtain ⟨i, -, hi⟩ := hrs r hr
    exact ⟨i, (Meter.toNat_toUnits hi).trans (Nat.mul_comm _ _)⟩
  obtain ⟨total, htotal⟩ := hdvd
  have hamount : Meter.cpu.amount capacity = k * unitsPerOne := Meter.toNat_toUnits hcount
  rw [hamount, htotal, Nat.mul_comm]
  refine Nat.mul_le_mul_right _ (Nat.le_of_not_lt fun hmore => ?_)
  -- The tolerance does not reach the next core, and the sum does.
  have hnext : .ofNat (k + 1) ≤ (sum rs).cpu := by
    refine ofNat_le_cpu_foldl hrs (k := 0) (Nat.zero_le _) (Binary64.le_refl rfl) (by omega) ?_
    rw [htotal, Nat.zero_mul, Nat.zero_add, Nat.mul_comm unitsPerOne]
    exact Nat.mul_le_mul_right _ hmore
  have hlt := (hcount.add_tolerance_lt_iff (Binary64.isCount_ofNat (by omega)) hk).2 (Nat.lt_succ_self k)
  exact Binary64.not_lt_of_le (Binary64.le_trans hnext hfits) hlt

end Resources

/-- An idle node has room for requests of whole cores whose sum fits into its capacity. -/
theorem Ledger.roomy_of_isIdle {l : Ledger} (hidle : l.IsIdle) (hcapacity : l.capacity.WholeCores)
    {rs : List Resources} (hrs : ∀ r ∈ rs, r.WholeCores) (hsums : Resources.SumsUncut rs)
    (hfits : (Resources.sum rs).fitsWithin l.capacity = true) : l.Roomy rs := by
  obtain ⟨hcpu, hgpu, hmemory⟩ := Resources.fitsWithin_iff.1 hfits
  rw [hsums.gpu] at hgpu
  rw [hsums.memory] at hmemory
  have hnone : l.pods = [] := by rw [hidle]; rfl
  have hbalanced (m : Meter) (h : m.Exact l.capacity) : l.Balanced m := by
    rw [hidle]
    exact .idle l.name h
  have hroom (m : Meter) (h : m.Exact l.capacity) (hle : (rs.map m.amount).sum ≤ m.amount l.capacity) :
      l.Room m rs := ⟨hbalanced m h, by rw [hnone, Meter.held_nil, Nat.zero_add]; exact hle⟩
  exact ⟨hroom .cpu hcapacity (Resources.sum_amount_cpu_le hrs hcapacity hcpu), hroom .gpu trivial hgpu,
    hroom .memory trivial hmemory⟩

end PodPlacement
