import PodPlacement.Ledger
import PodPlacement.Manifest.ResourceList

/-! # Cluster manifests

A cluster manifest lists nodes. `schedulableNodes` makes ledgers of those that pods may be placed on. -/

namespace PodPlacement.Manifest

/-- The definition of a node. -/
structure NodeDefinition where
  /-- The name, if one is given. -/
  name? : Option String := none
  /-- No pod may be placed on the node. -/
  unschedulable : Bool := false
  /-- What the node offers. -/
  allocatable : ResourceList := {}
deriving DecidableEq

namespace NodeDefinition

/-- The name of the node. -/
def name (d : NodeDefinition) : String := d.name?.getD "unknown"

/-- Reads the definition of a node. -/
def ofNode? (node : Yaml.Node) : Option NodeDefinition := do
  let fields ← fields? node
  let name? ← fields.read? "metadata" none fun node => do
    let fields ← fields? node
    fields.read? "name" none (optional? text?)
  let unschedulable ← fields.read? "spec" false fun node => do
    let fields ← fields? node
    fields.read? "unschedulable" false bool?
  let allocatable ← fields.read? "status" {} fun node => do
    let fields ← fields? node
    fields.read? "allocatable" {} ResourceList.ofNode?
  pure ⟨name?, unschedulable, allocatable⟩

/-- The ledger of the idle node. -/
def toLedger (d : NodeDefinition) : Noted Ledger := do
  let capacity ← d.allocatable.toResources
  pure (.idle d.name capacity)

end NodeDefinition

/-- The nodes of a cluster, as defined. -/
structure ClusterManifest where
  /-- The definitions. -/
  nodes : List NodeDefinition
deriving DecidableEq

namespace ClusterManifest

/-- Reads a cluster manifest from a tree. -/
def ofNode? (node : Yaml.Node) : Option ClusterManifest := do
  let fields ← fields? node
  let nodes ← fields.read? "cluster" [] (list? NodeDefinition.ofNode?)
  pure ⟨nodes⟩

/-- Reads a cluster manifest from a text. -/
def ofText? (text : String) : Option ClusterManifest := (Yaml.Node.ofText? text).bind ofNode?

/-- The ledgers of nodes, with a notice for each name that was there before. -/
def ledgers : (seen : List String) → List NodeDefinition → Noted (List Ledger)
  | _, [] => pure []
  | seen, d :: rest => do
    if seen.contains d.name then Noted.note .duplicateNodeName
    let ledger ← d.toLedger
    let ledgers ← ledgers (d.name :: seen) rest
    pure (ledger :: ledgers)

/-- The ledgers of the nodes that pods may be placed on, in the order of the manifest. -/
def schedulableNodes (m : ClusterManifest) : Noted (List Ledger) :=
  ledgers [] (m.nodes.filter fun d => !d.unschedulable)

end ClusterManifest

end PodPlacement.Manifest
