import PodPlacement.Resources

/-! # Refusals

Why a node does not admit a pod: the first resource that is short, with the amounts. -/

namespace PodPlacement

/-- The first resource a node has too little of, the amount asked for and the amount there is. -/
inductive Refusal where
  /-- Too little CPU. -/
  | cpu (required available : Cores)
  /-- Too few GPUs. -/
  | gpu (required available : Gpus)
  /-- Too little memory. -/
  | memory (required available : Mebibytes)
deriving DecidableEq

namespace Refusal

/-- The refusal in words. -/
def message : Refusal → String
  | cpu required available =>
    "pod requires " ++ required.fixed 3 ++ " CPU but node only has " ++ available.fixed 3 ++ " available"
  | gpu required available =>
    "pod requires " ++ toString required ++ " GPU(s) but node only has " ++ toString available ++
      " available"
  | memory required available =>
    "pod requires " ++ toString required ++ "MB but node only has " ++ toString available ++
      "MB available"

end Refusal

namespace Resources

/-- The first resource of which `available` has less than is requested. -/
def shortage? (request available : Resources) : Option Refusal :=
  if available.cpu + cpuTolerance < request.cpu then some (.cpu request.cpu available.cpu)
  else if available.gpu < request.gpu then some (.gpu request.gpu available.gpu)
  else if available.memory < request.memory then some (.memory request.memory available.memory)
  else none

end Resources

end PodPlacement
