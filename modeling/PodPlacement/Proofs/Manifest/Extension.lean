import Mathlib.Data.List.Forall2
import PodPlacement.Manifest.Cluster
import PodPlacement.Manifest.Workload

/-! # Manifests with more entries

A manifest may hold entries that nobody reads. Each structure of a manifest is described by the keys it reads and what
may be added to the trees under them; entries under other keys may stand anywhere between. What is read from a tree
does not change with such entries, as long as their keys are scalars.

* `ExtendsList`, `ExtendsStructure` — a tree with more entries in the structures of a list, or in a structure and those
  below it; `ClusterManifest.Extends` and `WorkloadManifest.Extends` are made of these.
* `Overlooks` — a reader gives the same for related trees; `Overlooks.bind_fields?`, `Overlooks.optional?` and
  `Overlooks.list?` are about the parts that readers are made of.
* `overlooks_resourceList` up to `overlooks_cluster` and `overlooks_workload` — the readers, one for each kind of
  structure. -/

namespace PodPlacement.Manifest

open Yaml

/-! ### Trees with more entries -/

/-- A relation between a tree and a tree with more entries. -/
abbrev TreeRelation := Node → Node → Prop

/-- The keys that a structure reads, with what may be added to the trees under them. -/
abbrev KnownKeys := List (String × TreeRelation)

/-- Items of a list are extended one by one. Tags stay. -/
inductive ExtendsList (R : TreeRelation) : TreeRelation where
  /-- Nothing is added. -/
  | same (node : Node) : ExtendsList R node node
  /-- Something is added below a tag. -/
  | tagged {tag : String} {content content' : Node} (h : ExtendsList R content content') :
    ExtendsList R (.tagged tag content) (.tagged tag content')
  /-- Something is added to some of the items. -/
  | sequence {items items' : List Node} (h : List.Forall₂ R items items') :
    ExtendsList R (.sequence items) (.sequence items')

/-- Entries of a structure with more entries anywhere between, whose keys are `Allowed` and not known. -/
inductive ExtendsEntries (Allowed : Node → Prop) (known : KnownKeys) :
    List (Node × Node) → List (Node × Node) → Prop where
  /-- Behind the last entry. -/
  | nil : ExtendsEntries Allowed known [] []
  /-- An entry as it was. -/
  | kept {entries entries' : List (Node × Node)} (entry : Node × Node)
    (h : ExtendsEntries Allowed known entries entries') :
    ExtendsEntries Allowed known (entry :: entries) (entry :: entries')
  /-- An entry under a known key, with something added below it. -/
  | extended {entries entries' : List (Node × Node)} {key value value' : Node} {name : String} {R : TreeRelation}
    (hkey : text? key = some name) (hname : known.lookup name = some R) (hvalue : R value value')
    (h : ExtendsEntries Allowed known entries entries') :
    ExtendsEntries Allowed known ((key, value) :: entries) ((key, value') :: entries')
  /-- An entry that was not there. -/
  | added {entries entries' : List (Node × Node)} {key : Node} (value : Node) (hallowed : Allowed key)
    (hunknown : ∀ name, text? key = some name → known.lookup name = none)
    (h : ExtendsEntries Allowed known entries entries') :
    ExtendsEntries Allowed known entries ((key, value) :: entries')

/-- A structure has more entries, itself or below its known keys. Tags stay. -/
inductive ExtendsStructure (Allowed : Node → Prop) (known : KnownKeys) : TreeRelation where
  /-- Nothing is added. -/
  | same (node : Node) : ExtendsStructure Allowed known node node
  /-- Something is added below a tag. -/
  | tagged {tag : String} {content content' : Node} (h : ExtendsStructure Allowed known content content') :
    ExtendsStructure Allowed known (.tagged tag content) (.tagged tag content')
  /-- Something is added to the entries. -/
  | mapping {entries entries' : List (Node × Node)} (h : ExtendsEntries Allowed known entries entries') :
    ExtendsStructure Allowed known (.mapping entries) (.mapping entries')

/-! ### The structures of a manifest -/

section Structures

variable (Allowed : Node → Prop)

/-- A resource list reads three quantities. -/
def ResourceList.Extends : TreeRelation :=
  ExtendsStructure Allowed [("cpu", Eq), ("memory", Eq), ("nvidia.com/gpu", Eq)]

/-- A node reads its name, whether pods may be placed on it, and what it offers. -/
def NodeDefinition.Extends : TreeRelation :=
  ExtendsStructure Allowed
    [("metadata", ExtendsStructure Allowed [("name", Eq)]),
      ("spec", ExtendsStructure Allowed [("unschedulable", Eq)]),
      ("status", ExtendsStructure Allowed [("allocatable", ResourceList.Extends Allowed)])]

/-- A cluster manifest reads a list of nodes. -/
def ClusterManifest.Extends : TreeRelation :=
  ExtendsStructure Allowed [("cluster", ExtendsList (NodeDefinition.Extends Allowed))]

/-- A container reads its command and its resources. -/
def ContainerDefinition.Extends : TreeRelation :=
  ExtendsStructure Allowed
    [("command", Eq),
      ("resources", ExtendsStructure Allowed
        [("requests", ResourceList.Extends Allowed), ("limits", ResourceList.Extends Allowed)])]

/-- A task reads the number of its pods, its name, and the containers in the specification of its template. -/
def TaskDefinition.Extends : TreeRelation :=
  ExtendsStructure Allowed
    [("replicas", Eq), ("name", Eq),
      ("template", ExtendsStructure Allowed
        [("spec", ExtendsStructure Allowed
          [("containers", ExtendsList (ContainerDefinition.Extends Allowed))])])]

/-- A job reads its name, its namespace, its labels, whose keys are all known, and its tasks. -/
def JobDefinition.Extends : TreeRelation :=
  ExtendsStructure Allowed
    [("metadata", ExtendsStructure Allowed [("name", Eq), ("namespace", Eq), ("labels", Eq)]),
      ("spec", ExtendsStructure Allowed [("tasks", ExtendsList (TaskDefinition.Extends Allowed))])]

/-- A workload manifest reads a list of jobs. -/
def WorkloadManifest.Extends : TreeRelation :=
  ExtendsStructure Allowed [("jobs", ExtendsList (JobDefinition.Extends Allowed))]

end Structures

/-! ### What a mapping gives -/

/-- The node is a scalar, with a tag or without. -/
def IsScalar (node : Node) : Prop := ∃ text quoted, node.bare = .scalar text quoted

/-- Scalars are the nodes with a text. -/
theorem isScalar_iff {node : Node} : IsScalar node ↔ ∃ text, text? node = some text := by
  unfold IsScalar text?
  split
  · rename_i text quoted h
    exact ⟨fun _ => ⟨text, rfl⟩, fun _ => ⟨text, quoted, h⟩⟩
  · rename_i h
    exact ⟨fun ⟨text, quoted, heq⟩ => absurd heq (h text quoted), fun ⟨_, heq⟩ => absurd heq nofun⟩

/-- A mapping is not blank. -/
theorem isBlankNode_of_bare {node : Node} {entries : List (Node × Node)} (h : node.bare = .mapping entries) :
    isBlankNode node = false := by
  simp [isBlankNode, Node.plainText?, h]

/-- The entries of a mapping with the texts of their keys, if all of those are scalars. -/
def namedEntries? (entries : List (Node × Node)) : Option Fields :=
  entries.mapM fun (key, value) => (text? key).map (·, value)

/-- The first entry is named by its own key. -/
theorem namedEntries?_cons (key value : Node) (entries : List (Node × Node)) :
    namedEntries? ((key, value) :: entries) =
      (text? key).bind fun name => (namedEntries? entries).map ((name, value) :: ·) := by
  cases hkey : text? key <;> cases h : namedEntries? entries <;> simp_all [namedEntries?]

/-- A mapping has the fields that its keys name. -/
theorem fields?_of_bare {node : Node} {entries : List (Node × Node)} (h : node.bare = .mapping entries) :
    fields? node = namedEntries? entries := by
  rw [fields?, isBlankNode_of_bare h, if_neg Bool.false_ne_true, h]
  rfl

/-- A mapping is not null. -/
theorem optional?_of_bare {α : Type} (read? : Node → Option α) {node : Node} {entries : List (Node × Node)}
    (h : node.bare = .mapping entries) : optional? read? node = (read? node).map some := by
  unfold optional?
  split
  · cases h
  · cases h
  · rfl

/-- Only a mapping can have more entries. -/
theorem ExtendsStructure.eq_or_mapping {Allowed : Node → Prop} {known : KnownKeys} {node node' : Node}
    (h : ExtendsStructure Allowed known node node') :
    node' = node ∨ ∃ entries entries', node.bare = .mapping entries ∧ node'.bare = .mapping entries' ∧
      ExtendsEntries Allowed known entries entries' := by
  induction h with
  | same => exact .inl rfl
  | tagged _ ih =>
    rcases ih with rfl | ih
    · exact .inl rfl
    · exact .inr ih
  | mapping h => exact .inr ⟨_, _, rfl, rfl, h⟩

/-! ### Readers that overlook entries -/

/-- A reader gives the same for related trees. -/
def Overlooks {α : Type} (R : TreeRelation) (read? : Node → Option α) : Prop :=
  ∀ ⦃node node'⦄, R node node' → read? node' = read? node

/-- Every reader gives the same for the same tree. -/
theorem Overlooks.eq {α : Type} (read? : Node → Option α) : Overlooks Eq read? := by
  rintro node _ rfl
  rfl

/-- The entries agree on the known keys: as many values are given under each, and what is different between them was
added. -/
def AgreeOn (known : KnownKeys) (fields fields' : Fields) : Prop :=
  ∀ ⦃key R⦄, known.lookup key = some R →
    List.Forall₂ (fun value value' => value' = value ∨ R value value') (fields.valuesOf key) (fields'.valuesOf key)

/-- Entries agree with themselves. -/
theorem AgreeOn.refl (known : KnownKeys) (fields : Fields) : AgreeOn known fields fields :=
  fun _ _ _ => List.forall₂_same.2 fun _ _ => .inl rfl

/-- One more entry adds its value under its own key. -/
theorem Fields.valuesOf_cons (name : String) (value : Node) (fields : Fields) (key : String) :
    Fields.valuesOf ((name, value) :: fields) key =
      if name = key then value :: fields.valuesOf key else fields.valuesOf key := by
  rw [Fields.valuesOf, List.filter_cons]
  split <;> simp_all [Fields.valuesOf]

/-- Of entries that agree, the value of a known key is read alike. -/
theorem AgreeOn.read?_eq {α : Type} {known : KnownKeys} {fields fields' : Fields} (h : AgreeOn known fields fields')
    (key : String) {R : TreeRelation} (hkey : known.lookup key = some R) {read? : Node → Option α}
    (hread : Overlooks R read?) (default : α) :
    fields'.read? key default read? = fields.read? key default read? := by
  have hvalues := h hkey
  unfold Fields.read?
  generalize fields.valuesOf key = values at hvalues ⊢
  generalize fields'.valuesOf key = values' at hvalues ⊢
  cases hvalues with
  | nil => rfl
  | cons hfirst hrest =>
    cases hrest with
    | nil =>
      rcases hfirst with rfl | hfirst
      · rfl
      · exact hread hfirst
    | cons => rfl

/-- Entries agree on a known key if they do behind an entry with the same name and related values. -/
theorem AgreeOn.cons {known : KnownKeys} {fields fields' : Fields} (h : AgreeOn known fields fields') {name : String}
    {value value' : Node} (hvalue : value' = value ∨ ∃ R, known.lookup name = some R ∧ R value value') :
    AgreeOn known ((name, value) :: fields) ((name, value') :: fields') := by
  intro key R hkey
  rw [Fields.valuesOf_cons, Fields.valuesOf_cons]
  split
  · rename_i hname
    subst hname
    refine .cons (hvalue.imp_right ?_) (h hkey)
    rintro ⟨S, hS, hrelated⟩
    rw [hkey] at hS
    cases hS
    exact hrelated
  · exact h hkey

/-- An entry under a key that is not known does not matter. -/
theorem AgreeOn.cons_right {known : KnownKeys} {fields fields' : Fields} (h : AgreeOn known fields fields')
    {name : String} (hname : known.lookup name = none) (value : Node) :
    AgreeOn known fields ((name, value) :: fields') := by
  intro key R hkey
  have hne : name ≠ key := by
    rintro rfl
    rw [hname] at hkey
    cases hkey
  rw [Fields.valuesOf_cons, if_neg hne]
  exact h hkey

/-- With more entries under scalar keys that are not known, the entries still agree on the known keys, or still have a
key that is no scalar. -/
theorem ExtendsEntries.agree {known : KnownKeys} {entries entries' : List (Node × Node)}
    (h : ExtendsEntries IsScalar known entries entries') :
    namedEntries? entries = none ∧ namedEntries? entries' = none ∨
      ∃ fields fields', namedEntries? entries = some fields ∧ namedEntries? entries' = some fields' ∧
        AgreeOn known fields fields' := by
  induction h with
  | nil => exact .inr ⟨[], [], rfl, rfl, .refl known []⟩
  | kept entry _ ih =>
    obtain ⟨key, value⟩ := entry
    rw [namedEntries?_cons, namedEntries?_cons]
    cases text? key with
    | none => exact .inl ⟨rfl, rfl⟩
    | some name =>
      rcases ih with ⟨hnone, hnone'⟩ | ⟨fields, fields', hsome, hsome', hagree⟩
      · exact .inl ⟨by rw [hnone]; rfl, by rw [hnone']; rfl⟩
      · exact .inr ⟨_, _, by rw [hsome]; rfl, by rw [hsome']; rfl, hagree.cons (.inl rfl)⟩
  | extended hkey hname hvalue _ ih =>
    rw [namedEntries?_cons, namedEntries?_cons, hkey]
    rcases ih with ⟨hnone, hnone'⟩ | ⟨fields, fields', hsome, hsome', hagree⟩
    · exact .inl ⟨by rw [hnone]; rfl, by rw [hnone']; rfl⟩
    · exact .inr ⟨_, _, by rw [hsome]; rfl, by rw [hsome']; rfl, hagree.cons (.inr ⟨_, hname, hvalue⟩)⟩
  | added value hallowed hunknown _ ih =>
    obtain ⟨name, hkey⟩ := isScalar_iff.1 hallowed
    rw [namedEntries?_cons, hkey]
    rcases ih with ⟨hnone, hnone'⟩ | ⟨fields, fields', hsome, hsome', hagree⟩
    · exact .inl ⟨hnone, by rw [hnone']; rfl⟩
    · exact .inr ⟨_, _, hsome, by rw [hsome']; rfl, hagree.cons_right (hunknown name hkey) value⟩

/-! ### The parts of readers -/

/-- What is made of the fields of a structure overlooks its unknown keys if it is the same for fields that agree on the
known ones. -/
theorem Overlooks.bind_fields? {α : Type} {known : KnownKeys} {make? : Fields → Option α}
    (hmake : ∀ ⦃fields fields'⦄, AgreeOn known fields fields' → make? fields' = make? fields) :
    Overlooks (ExtendsStructure IsScalar known) fun node => fields? node >>= make? := by
  intro node node' h
  rcases h.eq_or_mapping with rfl | ⟨entries, entries', hbare, hbare', hentries⟩
  · rfl
  · simp only [fields?_of_bare hbare, fields?_of_bare hbare']
    rcases hentries.agree with ⟨hnone, hnone'⟩ | ⟨fields, fields', hsome, hsome', hagree⟩
    · rw [hnone, hnone']
    · rw [hsome, hsome']
      exact hmake hagree

/-- A structure that may be null has the entries of the structure. -/
theorem Overlooks.optional? {α : Type} {known : KnownKeys} {read? : Node → Option α}
    (hread : Overlooks (ExtendsStructure IsScalar known) read?) :
    Overlooks (ExtendsStructure IsScalar known) (Manifest.optional? read?) := by
  intro node node' h
  rcases h.eq_or_mapping with rfl | ⟨entries, entries', hbare, hbare', -⟩
  · rfl
  · rw [optional?_of_bare read? hbare, optional?_of_bare read? hbare', hread h]

/-- Items that are read alike make lists that are read alike. -/
theorem mapM_eq_of_forall₂ {α : Type} {R : TreeRelation} {read? : Node → Option α} (hread : Overlooks R read?)
    {items items' : List Node} (h : List.Forall₂ R items items') : items'.mapM read? = items.mapM read? := by
  induction h with
  | nil => rfl
  | cons hitem _ ih => rw [List.mapM_cons, List.mapM_cons, hread hitem, ih]

/-- A list overlooks what its items overlook. -/
theorem Overlooks.list? {α : Type} {R : TreeRelation} {read? : Node → Option α} (hread : Overlooks R read?) :
    Overlooks (ExtendsList R) (Manifest.list? read?) := by
  intro node node' h
  induction h with
  | same => rfl
  | tagged _ ih => exact ih
  | sequence h =>
    show (some _).bind _ = (some _).bind _
    exact mapM_eq_of_forall₂ hread h

/-! ### The readers -/

/-- A resource list overlooks keys other than those of its quantities. -/
theorem overlooks_resourceList : Overlooks (ResourceList.Extends IsScalar) ResourceList.ofNode? := by
  refine .bind_fields? fun fields fields' h => ?_
  rw [h.read?_eq "cpu" rfl (.eq _), h.read?_eq "memory" rfl (.eq _), h.read?_eq "nvidia.com/gpu" rfl (.eq _)]

/-- The definition of a node overlooks unknown keys. -/
theorem overlooks_node : Overlooks (NodeDefinition.Extends IsScalar) NodeDefinition.ofNode? := by
  refine .bind_fields? fun fields fields' h => ?_
  rw [h.read?_eq "metadata" rfl (.bind_fields? fun _ _ hmetadata => hmetadata.read?_eq "name" rfl (.eq _) _)]
  rw [h.read?_eq "spec" rfl (.bind_fields? fun _ _ hspec => hspec.read?_eq "unschedulable" rfl (.eq _) _)]
  rw [h.read?_eq "status" rfl
    (.bind_fields? fun _ _ hstatus => hstatus.read?_eq "allocatable" rfl overlooks_resourceList _)]

/-- The definition of a container overlooks unknown keys. -/
theorem overlooks_container : Overlooks (ContainerDefinition.Extends IsScalar) ContainerDefinition.ofNode? := by
  refine .bind_fields? fun fields fields' h => ?_
  rw [h.read?_eq "command" rfl (.eq _)]
  rw [h.read?_eq "resources" rfl (.bind_fields? fun _ _ hresources => by
    rw [hresources.read?_eq "requests" rfl overlooks_resourceList,
      hresources.read?_eq "limits" rfl overlooks_resourceList])]

/-- The definition of a task overlooks unknown keys. -/
theorem overlooks_task : Overlooks (TaskDefinition.Extends IsScalar) TaskDefinition.ofNode? := by
  refine .bind_fields? fun fields fields' h => ?_
  rw [h.read?_eq "replicas" rfl (.eq _), h.read?_eq "name" rfl (.eq _)]
  rw [h.read?_eq "template" rfl (.bind_fields? fun _ _ htemplate =>
    htemplate.read?_eq "spec" rfl (.bind_fields? fun _ _ hspec =>
      hspec.read?_eq "containers" rfl overlooks_container.list? _) _)]

/-- The definition of a job overlooks unknown keys. -/
theorem overlooks_job : Overlooks (JobDefinition.Extends IsScalar) JobDefinition.ofNode? := by
  refine .bind_fields? fun fields fields' h => ?_
  rw [h.read?_eq "metadata" rfl (.bind_fields? fun _ _ hmetadata => by
    rw [hmetadata.read?_eq "name" rfl (.eq _), hmetadata.read?_eq "namespace" rfl (.eq _),
      hmetadata.read?_eq "labels" rfl (.eq _)])]
  rw [h.read?_eq "spec" rfl
    (.optional? (.bind_fields? fun _ _ hspec => hspec.read?_eq "tasks" rfl overlooks_task.list? _))]

/-- A cluster manifest overlooks unknown keys. -/
theorem overlooks_cluster : Overlooks (ClusterManifest.Extends IsScalar) ClusterManifest.ofNode? := by
  refine .bind_fields? fun fields fields' h => ?_
  rw [h.read?_eq "cluster" rfl overlooks_node.list?]

/-- A workload manifest overlooks unknown keys. -/
theorem overlooks_workload : Overlooks (WorkloadManifest.Extends IsScalar) WorkloadManifest.ofNode? := by
  refine .bind_fields? fun fields fields' h => ?_
  rw [h.read?_eq "jobs" rfl overlooks_job.list?]

end PodPlacement.Manifest
