import PodPlacement.Manifest.Decode

/-! # Resource lists

The three quantities of a `requests`, `limits` or `allocatable` block. -/

namespace PodPlacement.Manifest

/-- The quantities of a resource list, as written. -/
structure ResourceList where
  /-- CPU. -/
  cpu : Option Quantity := none
  /-- Memory. -/
  memory : Option Quantity := none
  /-- GPU devices. -/
  gpu : Option Quantity := none
deriving DecidableEq

namespace ResourceList

/-- Reads a resource list. -/
def ofNode? (node : Yaml.Node) : Option ResourceList := do
  let fields ← fields? node
  let cpu ← fields.read? "cpu" none (optional? quantity?)
  let memory ← fields.read? "memory" none (optional? quantity?)
  let gpu ← fields.read? "nvidia.com/gpu" none (optional? quantity?)
  pure ⟨cpu, memory, gpu⟩

/-- The resources a list amounts to. -/
def toResources (r : ResourceList) : Noted Resources :=
  Resources.ofQuantities r.cpu r.gpu r.memory

end ResourceList

end PodPlacement.Manifest
