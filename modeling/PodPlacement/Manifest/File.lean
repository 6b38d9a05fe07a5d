import PodPlacement.Manifest.Cluster
import PodPlacement.Manifest.Workload

/-! # Manifest files

Loading a manifest from the bytes of a file. The file must be there, hold UTF-8 text, and the text must
be a manifest. -/

namespace PodPlacement.Manifest

/-- A file as it was found. -/
structure File where
  /-- Where it was looked for. -/
  path : String
  /-- Its bytes, if it is there. -/
  bytes? : Option ByteArray

/-- The text of the file, if it is there and holds UTF-8. -/
def File.text? (file : File) : Option String := file.bytes?.bind String.fromUTF8?

/-- Why a manifest was not loaded. -/
inductive LoadError where
  /-- The file of a cluster manifest is missing or no text. -/
  | noClusterText (path : String)
  /-- The file of a workload manifest is missing or no text. -/
  | noWorkloadText (path : String)
  /-- The text is no manifest. -/
  | notAManifest (path : String)
deriving DecidableEq

/-- The error in words. -/
def LoadError.message : LoadError → String
  | noClusterText path => "Cannot open node file: " ++ path
  | noWorkloadText path => "Cannot open workload file: " ++ path
  | notAManifest path => "Failed to parse YAML file: " ++ path

/-- Loads a cluster manifest. -/
def ClusterManifest.load (file : File) : Except LoadError ClusterManifest :=
  match file.text? with
  | none => .error (.noClusterText file.path)
  | some text =>
    match ofText? text with
    | none => .error (.notAManifest file.path)
    | some manifest => .ok manifest

/-- Loads a workload manifest, with a notice if it has no jobs. -/
def WorkloadManifest.load (file : File) : Except LoadError (Noted WorkloadManifest) :=
  match file.text? with
  | none => .error (.noWorkloadText file.path)
  | some text =>
    match ofText? text with
    | none => .error (.notAManifest file.path)
    | some manifest => .ok ⟨manifest, if manifest.jobs.isEmpty then [.emptyWorkload] else []⟩

end PodPlacement.Manifest
