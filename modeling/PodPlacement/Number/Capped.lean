/-! # Capped counts

A `Capped limit` is a natural number up to `limit`. Sums stop at the limit and differences at zero, so
arithmetic never leaves the range. -/

namespace PodPlacement

/-- A natural number that is at most `limit`. -/
structure Capped (limit : Nat) where
  /-- The number. -/
  val : Nat
  /-- It is within the limit. -/
  val_le : val ≤ limit
deriving DecidableEq

namespace Capped

variable {limit : Nat}

/-- Two capped counts are equal as soon as their numbers are. -/
@[ext]
theorem ext {a b : Capped limit} (h : a.val = b.val) : a = b := by
  cases a; cases b; cases h; rfl

/-- A natural number, cut at the limit. -/
def ofNat (limit n : Nat) : Capped limit := ⟨min n limit, Nat.min_le_right n limit⟩

instance (n : Nat) : OfNat (Capped limit) n := ⟨ofNat limit n⟩

instance : Inhabited (Capped limit) := ⟨0⟩

instance : LE (Capped limit) := ⟨fun a b => a.val ≤ b.val⟩

instance : LT (Capped limit) := ⟨fun a b => a.val < b.val⟩

instance (a b : Capped limit) : Decidable (a ≤ b) := inferInstanceAs (Decidable (a.val ≤ b.val))

instance (a b : Capped limit) : Decidable (a < b) := inferInstanceAs (Decidable (a.val < b.val))

instance : Add (Capped limit) := ⟨fun a b => ofNat limit (a.val + b.val)⟩

instance : Sub (Capped limit) :=
  ⟨fun a b => ⟨a.val - b.val, Nat.le_trans (Nat.sub_le a.val b.val) a.val_le⟩⟩

instance : ToString (Capped limit) := ⟨fun a => toString a.val⟩

/-- Cutting a number keeps the smaller of it and the limit. -/
@[simp]
theorem val_ofNat (n : Nat) : (ofNat limit n).val = min n limit := rfl

/-- Zero is below every limit. -/
@[simp]
theorem val_zero : (0 : Capped limit).val = 0 := Nat.zero_min limit

/-- A sum is the sum of the numbers, cut at the limit. -/
@[simp]
theorem val_add (a b : Capped limit) : (a + b).val = min (a.val + b.val) limit := rfl

/-- A difference stops at zero. -/
@[simp]
theorem val_sub (a b : Capped limit) : (a - b).val = a.val - b.val := rfl

/-- The order is that of the numbers. -/
theorem le_iff_val {a b : Capped limit} : a ≤ b ↔ a.val ≤ b.val := Iff.rfl

/-- The strict order is that of the numbers. -/
theorem lt_iff_val {a b : Capped limit} : a < b ↔ a.val < b.val := Iff.rfl

end Capped

end PodPlacement
