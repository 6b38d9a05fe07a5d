/-! # Notices

Odd input never stops a computation: it is repaired, and a `Notice` says so. `Noted α` is a value
together with the notices given on the way to it, in order. -/

namespace PodPlacement

/-- Something worth telling that does not stop a computation. -/
inductive Notice where
  /-- A resource quantity could not be read and counts as zero. -/
  | malformedQuantity
  /-- A submit time could not be read and counts as zero. -/
  | malformedSubmitTime
  /-- A job has no tasks. -/
  | jobWithoutTasks
  /-- A task has no container. -/
  | taskWithoutContainer
  /-- Two schedulable nodes share a name. -/
  | duplicateNodeName
  /-- A workload has no jobs. -/
  | emptyWorkload
  /-- The audit found a node holding more than its capacity. -/
  | overCommitted
  /-- A simulation ended before every pod was placed. -/
  | simulationAborted
deriving DecidableEq

namespace Notice

/-- What the notice says. -/
def message : Notice → String
  | malformedQuantity => "malformed resource quantity, treating as 0"
  | malformedSubmitTime => "malformed sub-time label, submitting at t=0"
  | jobWithoutTasks => "job has no tasks, nothing to schedule"
  | taskWithoutContainer => "task has no container, skipping"
  | duplicateNodeName => "duplicate node name in cluster definition"
  | emptyWorkload => "Workload file contains no jobs"
  | overCommitted => "node over-committed in produced schedule"
  | simulationAborted => "simulation aborted, returning partial schedule"

/-- How serious the notice is. -/
def severity : Notice → String
  | simulationAborted => "ERROR"
  | _ => "WARN"

/-- The notice as one line. -/
def line (n : Notice) : String := n.severity ++ ": " ++ n.message

end Notice

/-- A value with the notices given on the way to it. -/
structure Noted (α : Type) where
  /-- The value. -/
  value : α
  /-- The notices, first to last. -/
  notices : List Notice := []

namespace Noted

variable {α β : Type}

instance : Monad Noted where
  pure a := ⟨a, []⟩
  bind x f := ⟨(f x.value).value, x.notices ++ (f x.value).notices⟩

/-- A notice and no other result. -/
def note (n : Notice) : Noted Unit := ⟨(), [n]⟩

/-- A pure value is that value. -/
@[simp]
theorem value_pure (a : α) : (pure a : Noted α).value = a := rfl

/-- A pure value comes without notices. -/
@[simp]
theorem notices_pure (a : α) : (pure a : Noted α).notices = [] := rfl

/-- The value of a sequence is that of its last part. -/
@[simp]
theorem value_bind (x : Noted α) (f : α → Noted β) : (x >>= f).value = (f x.value).value := rfl

/-- The notices of a sequence follow each other. -/
@[simp]
theorem notices_bind (x : Noted α) (f : α → Noted β) :
    (x >>= f).notices = x.notices ++ (f x.value).notices := rfl

/-- Mapping a noted value maps the value. -/
@[simp]
theorem value_map (f : α → β) (x : Noted α) : (f <$> x).value = f x.value := rfl

end Noted

end PodPlacement
