import PodPlacement.Number.Capped
import PodPlacement.Number.Style

/-! # Resources

An amount of CPU, GPU devices and memory: what a pod requests, what a node offers, what is in use. -/

namespace PodPlacement

/-- CPU in cores. -/
abbrev Cores := Binary64

/-- A number of GPU devices. -/
abbrev Gpus := Capped (2 ^ 32 - 1)

/-- Memory in mebibytes. -/
abbrev Mebibytes := Capped (2 ^ 64 - 1)

/-- An amount of each resource. -/
structure Resources where
  /-- CPU cores. -/
  cpu : Cores
  /-- GPU devices. -/
  gpu : Gpus
  /-- Memory. -/
  memory : Mebibytes
deriving DecidableEq

namespace Resources

/-- The slack of CPU comparisons: a sum of fractions such as `0.1 + 0.2` still fits into `0.3`. -/
def cpuTolerance : Cores := 1e-9

/-- Nothing of anything. -/
def zero : Resources := ⟨0, 0, 0⟩

instance : Inhabited Resources := ⟨zero⟩

/-- Resources with these amounts; a negative CPU amount or NaN counts as zero. -/
def ofAmounts (cpu : Cores) (gpu : Gpus) (memory : Mebibytes) : Resources := ⟨cpu.maxNum 0, gpu, memory⟩

/-- Resources that are CPU only. -/
def ofCpu (cpu : Cores) : Resources := ofAmounts cpu 0 0

/-- Every amount is within the matching amount of the budget, CPU up to the tolerance. -/
def fitsWithin (r budget : Resources) : Bool :=
  decide (r.cpu ≤ budget.cpu + cpuTolerance) && decide (r.gpu ≤ budget.gpu) &&
    decide (r.memory ≤ budget.memory)

/-- Numeric equality of all amounts. -/
def equals (a b : Resources) : Bool := a.cpu.equals b.cpu && a.gpu == b.gpu && a.memory == b.memory

instance : Add Resources := ⟨fun a b => ⟨a.cpu + b.cpu, a.gpu + b.gpu, a.memory + b.memory⟩⟩

instance : Sub Resources :=
  ⟨fun a b => ⟨(a.cpu - b.cpu).maxNum 0, a.gpu - b.gpu, a.memory - b.memory⟩⟩

/-- The sum of a list of resources, from the left. -/
def sum (rs : List Resources) : Resources := rs.foldl (· + ·) zero

instance : ToString Resources :=
  ⟨fun r => "cpu=" ++ r.cpu.plain ++ " gpu=" ++ toString r.gpu ++ " memory=" ++ toString r.memory ++ "Mi"⟩

/-- The CPU of a sum. -/
@[simp]
theorem cpu_add (a b : Resources) : (a + b).cpu = a.cpu + b.cpu := rfl

/-- The GPUs of a sum. -/
@[simp]
theorem gpu_add (a b : Resources) : (a + b).gpu = a.gpu + b.gpu := rfl

/-- The memory of a sum. -/
@[simp]
theorem memory_add (a b : Resources) : (a + b).memory = a.memory + b.memory := rfl

/-- The CPU of a difference is never negative. -/
@[simp]
theorem cpu_sub (a b : Resources) : (a - b).cpu = (a.cpu - b.cpu).maxNum 0 := rfl

/-- The GPUs of a difference. -/
@[simp]
theorem gpu_sub (a b : Resources) : (a - b).gpu = a.gpu - b.gpu := rfl

/-- The memory of a difference. -/
@[simp]
theorem memory_sub (a b : Resources) : (a - b).memory = a.memory - b.memory := rfl

end Resources

end PodPlacement
