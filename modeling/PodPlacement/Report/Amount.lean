import PodPlacement.Resources

/-! # Amounts in reports

Amounts of resources as manifests write them: `800m` or `2.0` CPUs, `1024Mi` of memory. -/

namespace PodPlacement.Report

/-- An amount of CPU: less than one core in thousandths, whole cores with one decimal place. -/
def cores (amount : Cores) : String :=
  if amount.equals 0 then "0"
  else if 0 < amount ∧ amount < 1 then toString ((amount * 1000).toNatUpTo (2 ^ 64 - 1)) ++ "m"
  else if amount.isWhole then amount.fixed 1
  else amount.plain

/-- An amount of memory. -/
def mebibytes (amount : Mebibytes) : String := if amount.val = 0 then "0" else toString amount ++ "Mi"

/-- A number of GPUs, in the form of an amount of CPU. -/
def gpus (amount : Gpus) : String := cores (.ofNat amount.val)

end PodPlacement.Report
