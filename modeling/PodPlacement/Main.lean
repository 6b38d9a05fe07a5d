import PodPlacement.CommandLine.Response

/-! # The program

Reads the files its arguments name and gives the response. All that it answers is decided by
`Request.ofArguments` and `Options.respond`. -/

namespace PodPlacement.CommandLine

/-- A file as it is found. -/
def findFile (path : String) : BaseIO Manifest.File := do
  match ← EIO.toBaseIO (IO.FS.readBinFile path) with
  | .ok bytes => pure ⟨path, some bytes⟩
  | .error _ => pure ⟨path, none⟩

/-- The response to arguments. -/
def respond (arguments : List String) : BaseIO Response := do
  match Request.ofArguments arguments with
  | none => pure .misuse
  | some .help => pure .help
  | some (.run options) =>
    let nodes ← findFile options.nodes
    let workload ← findFile options.workload
    pure (options.respond nodes workload)

end PodPlacement.CommandLine

open PodPlacement.CommandLine in
/-- Writes the response to the arguments. -/
def main (arguments : List String) : IO UInt32 := do
  let response ← respond arguments
  for remark in response.remarks do
    IO.eprintln remark
  IO.print response.output
  pure response.exitCode.toUInt32
