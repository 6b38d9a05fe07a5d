import PodPlacement.Proofs.Manifest.Extension

/-! # Unknown keys

Entries that nobody reads change nothing, unless one of their keys is no scalar: a structure with such a key is refused,
and with it the manifest, wherever the structure stands.

* `Refuses` — a reader gives nothing for trees that are related in one way and not in another; `Refuses.bind_fields?`,
  `Refuses.optional?` and `Refuses.list?` are about the parts that readers are made of, and `Covers` is about what they
  make of the fields of a structure.
* `refuses_resourceList` up to `refuses_cluster` and `refuses_workload` — the readers, one for each kind of structure.
* `ofNode?_extended` — loading a manifest of either kind with entries that nobody reads.
* `ofNode?_sequenceKeyCluster` — one more entry can keep a manifest from being loaded. -/

namespace PodPlacement.Manifest

open Yaml

/-! ### Readers that refuse keys -/

/-- Trees that are related by `R` but not by `S` are refused. -/
def Refuses {α : Type} (R S : TreeRelation) (read? : Node → Option α) : Prop :=
  ∀ ⦃node node'⦄, R node node' → S node node' ∨ read? node' = none

/-- Nothing can be added to the same tree. -/
theorem Refuses.eq {α : Type} {read? : Node → Option α} : Refuses Eq Eq read? :=
  fun _ _ => .inl

/-- Items are related in the second way, or one of them is refused. -/
theorem Refuses.mapM {α : Type} {R S : TreeRelation} {read? : Node → Option α} (hread : Refuses R S read?)
    {items items' : List Node} (h : List.Forall₂ R items items') :
    List.Forall₂ S items items' ∨ items'.mapM read? = none := by
  induction h with
  | nil => exact .inl .nil
  | cons hitem _ ih =>
    rw [List.mapM_cons]
    rcases hread hitem with hitem | hitem
    · refine ih.imp (.cons hitem) fun hnone => ?_
      simp [hnone]
    · exact .inr (by rw [hitem]; rfl)

/-- A list with an item that is refused is refused. -/
theorem Refuses.list? {α : Type} {R S : TreeRelation} {read? : Node → Option α} (hread : Refuses R S read?) :
    Refuses (ExtendsList R) (ExtendsList S) (Manifest.list? read?) := by
  intro node node' h
  induction h with
  | same node => exact .inl (.same node)
  | tagged _ ih => exact ih.imp_left .tagged
  | sequence h => exact (hread.mapM h).imp_left .sequence

/-- A structure that may be null is refused where the structure is. -/
theorem Refuses.optional? {α : Type} {Allowed Allowed' : Node → Prop} {known known' : KnownKeys}
    {read? : Node → Option α}
    (hread : Refuses (ExtendsStructure Allowed known) (ExtendsStructure Allowed' known') read?) :
    Refuses (ExtendsStructure Allowed known) (ExtendsStructure Allowed' known') (Manifest.optional? read?) := by
  intro node node' h
  rcases h.eq_or_mapping with rfl | ⟨entries, entries', hbare, hbare', -⟩
  · exact .inl (.same _)
  · rw [optional?_of_bare read? hbare']
    exact (hread h).imp_right fun hnone => by rw [hnone]; rfl

/-- A key with a value that is refused cannot be read. -/
theorem Fields.read?_eq_none {α : Type} {fields : Fields} {key : String} {node : Node} {read? : Node → Option α}
    (hmem : node ∈ fields.valuesOf key) (hnone : read? node = none) (default : α) :
    fields.read? key default read? = none := by
  unfold Fields.read?
  split
  · rename_i hvalues
    rw [hvalues] at hmem
    cases hmem
  · rename_i hvalues
    rw [hvalues, List.mem_singleton] at hmem
    rw [← hmem, hnone]
  · rfl

/-- The same keys are known, and a tree under one of them that is related in the first way but not in the second keeps
the whole structure from being made. -/
def Covers {α : Type} (make? : Fields → Option α) : KnownKeys → KnownKeys → Prop :=
  List.Forall₂ fun f f' => f.1 = f'.1 ∧ ∀ ⦃node node'⦄, f.2 node node' → ¬ f'.2 node node' →
    ∀ fields : Fields, node' ∈ fields.valuesOf f.1 → make? fields = none

/-- What is read under the only key that is known. -/
theorem Covers.read {α : Type} {name : String} {R S : TreeRelation} {read? : Node → Option α} {default : α}
    (hread : Refuses R S read?) :
    Covers (fun fields => fields.read? name default read?) [(name, R)] [(name, S)] := by
  refine .cons ⟨rfl, fun node node' hnode hnot fields hmem => ?_⟩ .nil
  exact Fields.read?_eq_none hmem ((hread hnode).resolve_left hnot) default

/-- What is read under the first key that is known, with what is made of it and of the others. -/
theorem Covers.bind_read {α β : Type} {name : String} {R S : TreeRelation} {read? : Node → Option β} {default : β}
    {make? : β → Fields → Option α} {known known' : KnownKeys} (hread : Refuses R S read?)
    (hmake : ∀ value, Covers (make? value) known known') :
    Covers (fun fields => fields.read? name default read? >>= fun value => make? value fields)
      ((name, R) :: known) ((name, S) :: known') := by
  refine .cons ⟨rfl, fun node node' hnode hnot fields hmem => ?_⟩ ?_
  · have hnone : fields.read? name default read? = none :=
      Fields.read?_eq_none hmem ((hread hnode).resolve_left hnot) default
    simp only [hnone]
    rfl
  · -- The other keys are the same whatever value was read, so the default one will do for them.
    refine List.forall₂_iff_get.2 ⟨(hmake default).length_eq, fun i hi hi' => ?_⟩
    have hothers := fun value => (List.forall₂_iff_get.1 (hmake value)).2 i hi hi'
    refine ⟨(hothers default).1, fun node node' hnode hnot fields hmem => ?_⟩
    cases hvalue : fields.read? name default read? with
    | none =>
      simp only [hvalue]
      rfl
    | some value =>
      simp only [hvalue]
      exact (hothers value).2 hnode hnot fields hmem

/-- What is covered is looked up alike. -/
theorem Covers.lookup {α : Type} {make? : Fields → Option α} {known known' : KnownKeys} (h : Covers make? known known')
    (name : String) : known.lookup name = none ∧ known'.lookup name = none ∨
      ∃ R S, known.lookup name = some R ∧ known'.lookup name = some S ∧ ∀ ⦃node node'⦄, R node node' →
        ¬ S node node' → ∀ fields : Fields, node' ∈ fields.valuesOf name → make? fields = none := by
  induction h with
  | nil => exact .inl ⟨rfl, rfl⟩
  | @cons f f' known known' hf _ ih =>
    obtain ⟨hname, hvalues⟩ := hf
    rw [List.lookup_cons, List.lookup_cons, ← hname]
    cases hsame : name == f.1 with
    | false => exact ih
    | true =>
      rw [beq_iff_eq] at hsame
      rw [hsame]
      exact .inr ⟨f.2, f'.2, rfl, rfl, hvalues⟩

/-- Nothing is made of the entries, whatever stands before them. -/
def NeverMade {α : Type} (make? : Fields → Option α) (entries : List (Node × Node)) : Prop :=
  ∀ before fields, namedEntries? entries = some fields → make? (before ++ fields) = none

/-- With one more entry before them, still nothing is made. -/
theorem NeverMade.cons {α : Type} {make? : Fields → Option α} {entries : List (Node × Node)}
    (h : NeverMade make? entries) (key value : Node) : NeverMade make? ((key, value) :: entries) := by
  intro before fields hfields
  rw [namedEntries?_cons, Option.bind_eq_some_iff] at hfields
  obtain ⟨name, -, hfields⟩ := hfields
  obtain ⟨rest, hrest, rfl⟩ := Option.map_eq_some_iff.1 hfields
  rw [List.append_cons]
  exact h _ rest hrest

/-- Nothing is made of entries the first of which has a known key and a value that is refused. -/
theorem neverMade_of_value {α : Type} {make? : Fields → Option α} {key value : Node} {name : String}
    (hkey : text? key = some name)
    (hvalue : ∀ fields : Fields, value ∈ fields.valuesOf name → make? fields = none)
    (entries : List (Node × Node)) : NeverMade make? ((key, value) :: entries) := by
  intro before fields hfields
  rw [namedEntries?_cons, hkey] at hfields
  obtain ⟨rest, -, rfl⟩ := Option.map_eq_some_iff.1 hfields
  refine hvalue _ ?_
  simp [Fields.valuesOf]

/-- Nothing is made of entries the first of which has a key that is no scalar. -/
theorem neverMade_of_key {α : Type} {key : Node} (hkey : text? key = none) (make? : Fields → Option α) (value : Node)
    (entries : List (Node × Node)) : NeverMade make? ((key, value) :: entries) := by
  intro before fields hfields
  rw [namedEntries?_cons, hkey] at hfields
  cases hfields

/-- What was added has scalar keys, or nothing is made of the entries. -/
theorem ExtendsEntries.scalar_or_neverMade {α : Type} {make? : Fields → Option α} {Allowed : Node → Prop}
    {known known' : KnownKeys} (hcovers : Covers make? known known') {entries entries' : List (Node × Node)}
    (h : ExtendsEntries Allowed known entries entries') :
    ExtendsEntries IsScalar known' entries entries' ∨ NeverMade make? entries' := by
  induction h with
  | nil => exact .inl .nil
  | kept entry _ ih => exact ih.imp (.kept entry) fun hnever => hnever.cons _ _
  | @extended _ _ key value value' name R hkey hname hvalue _ ih =>
    rcases hcovers.lookup name with ⟨hnone, -⟩ | ⟨R', S, hR, hS, hvalues⟩
    · rw [hname] at hnone
      cases hnone
    · rw [hname] at hR
      cases hR
      -- What was added below a known key either is below scalar keys only or is refused there.
      by_cases hvalue' : S value value'
      · exact ih.imp (.extended hkey hS hvalue') fun hnever => hnever.cons key value'
      · exact .inr (neverMade_of_value hkey (hvalues hvalue hvalue') _)
  | @added _ _ key value _ hunknown _ ih =>
    cases hkey : text? key with
    | none => exact .inr (neverMade_of_key hkey make? value _)
    | some name =>
      refine ih.imp (.added value (isScalar_iff.2 ⟨name, hkey⟩) ?_) fun hnever => hnever.cons key value
      intro name' hname'
      rcases hcovers.lookup name' with ⟨-, hnone⟩ | ⟨R, -, hR, -⟩
      · exact hnone
      · rw [hunknown name' hname'] at hR
        cases hR

/-- What is made of the fields of a structure is refused if something was added that is refused. -/
theorem Refuses.bind_fields? {α : Type} {make? : Fields → Option α} {Allowed : Node → Prop} {known known' : KnownKeys}
    (hcovers : Covers make? known known') :
    Refuses (ExtendsStructure Allowed known) (ExtendsStructure IsScalar known') fun node => fields? node >>= make? := by
  -- The induction passes tags, which both relations keep.
  have hnever : ∀ {node node'}, ExtendsStructure Allowed known node node' →
      ExtendsStructure IsScalar known' node node' ∨
        ∃ entries, node'.bare = .mapping entries ∧ NeverMade make? entries := by
    intro node node' h
    induction h with
    | same node => exact .inl (.same node)
    | tagged _ ih => exact ih.imp_left .tagged
    | mapping h => exact (h.scalar_or_neverMade hcovers).imp .mapping fun hnever => ⟨_, rfl, hnever⟩
  intro node node' h
  refine (hnever h).imp_right fun ⟨entries, hbare, hentries⟩ => ?_
  simp only [fields?_of_bare hbare]
  cases hfields : namedEntries? entries with
  | none => rfl
  | some fields => exact hentries [] fields hfields

/-! ### The readers -/

section Readers

variable {Allowed : Node → Prop}

/-- A resource list refuses keys that are no scalars. -/
theorem refuses_resourceList :
    Refuses (ResourceList.Extends Allowed) (ResourceList.Extends IsScalar) ResourceList.ofNode? :=
  .bind_fields? (.bind_read .eq fun _ => .bind_read .eq fun _ => .bind_read .eq fun _ => .nil)

/-- The definition of a node refuses keys that are no scalars. -/
theorem refuses_node :
    Refuses (NodeDefinition.Extends Allowed) (NodeDefinition.Extends IsScalar) NodeDefinition.ofNode? := by
  refine .bind_fields? (.bind_read (.bind_fields? (.read .eq)) fun _ => ?_)
  refine .bind_read (.bind_fields? (.read .eq)) fun _ => ?_
  exact .bind_read (.bind_fields? (.read refuses_resourceList)) fun _ => .nil

/-- The definition of a container refuses keys that are no scalars. -/
theorem refuses_container :
    Refuses (ContainerDefinition.Extends Allowed) (ContainerDefinition.Extends IsScalar)
      ContainerDefinition.ofNode? := by
  refine .bind_fields? (.bind_read .eq fun _ => .bind_read (.bind_fields? ?_) fun _ => .nil)
  exact .bind_read refuses_resourceList fun _ => .bind_read refuses_resourceList fun _ => .nil

/-- The definition of a task refuses keys that are no scalars. -/
theorem refuses_task :
    Refuses (TaskDefinition.Extends Allowed) (TaskDefinition.Extends IsScalar) TaskDefinition.ofNode? := by
  refine .bind_fields? (.bind_read .eq fun _ => .bind_read .eq fun _ => ?_)
  refine .bind_read (.bind_fields? (.read (.bind_fields? ?_))) fun _ => .nil
  exact .read refuses_container.list?

/-- The definition of a job refuses keys that are no scalars. -/
theorem refuses_job :
    Refuses (JobDefinition.Extends Allowed) (JobDefinition.Extends IsScalar) JobDefinition.ofNode? := by
  refine .bind_fields? (.bind_read (.bind_fields? ?_) fun _ => ?_)
  · exact .bind_read .eq fun _ => .bind_read .eq fun _ => .bind_read .eq fun _ => .nil
  · exact .bind_read (.optional? (.bind_fields? (.read refuses_task.list?))) fun _ => .nil

/-- A cluster manifest refuses keys that are no scalars. -/
theorem refuses_cluster :
    Refuses (ClusterManifest.Extends Allowed) (ClusterManifest.Extends IsScalar) ClusterManifest.ofNode? :=
  .bind_fields? (.bind_read refuses_node.list? fun _ => .nil)

/-- A workload manifest refuses keys that are no scalars. -/
theorem refuses_workload :
    Refuses (WorkloadManifest.Extends Allowed) (WorkloadManifest.Extends IsScalar) WorkloadManifest.ofNode? :=
  .bind_fields? (.bind_read refuses_job.list? fun _ => .nil)

end Readers

/-! ### Loading -/

/-- A manifest with more entries that nobody reads loads exactly if it did without them, as the same definitions, so it
gives the same nodes and pods with the same notices, as long as the keys of these entries are scalars. If one of the
keys is no scalar, the manifest is not loaded. -/
theorem ofNode?_extended {cluster cluster' workload workload' : Node}
    (hcluster : ClusterManifest.Extends (fun _ => True) cluster cluster')
    (hworkload : WorkloadManifest.Extends (fun _ => True) workload workload') :
    ((ClusterManifest.Extends IsScalar cluster cluster' →
        ClusterManifest.ofNode? cluster' = ClusterManifest.ofNode? cluster ∧
          (ClusterManifest.ofNode? cluster').map ClusterManifest.schedulableNodes =
            (ClusterManifest.ofNode? cluster).map ClusterManifest.schedulableNodes) ∧
      (¬ ClusterManifest.Extends IsScalar cluster cluster' → ClusterManifest.ofNode? cluster' = none)) ∧
    (WorkloadManifest.Extends IsScalar workload workload' →
        WorkloadManifest.ofNode? workload' = WorkloadManifest.ofNode? workload ∧
          (WorkloadManifest.ofNode? workload').map WorkloadManifest.expand =
            (WorkloadManifest.ofNode? workload).map WorkloadManifest.expand) ∧
      (¬ WorkloadManifest.Extends IsScalar workload workload' → WorkloadManifest.ofNode? workload' = none) := by
  refine ⟨⟨fun h => ?_, (refuses_cluster hcluster).resolve_left⟩, fun h => ?_,
    (refuses_workload hworkload).resolve_left⟩
  · have hnodes := overlooks_cluster h
    exact ⟨hnodes, by rw [hnodes]⟩
  · have hjobs := overlooks_workload h
    exact ⟨hjobs, by rw [hjobs]⟩

/-- An entry with an unquoted key. -/
def plainEntry (key : String) (value : Node) : Node × Node := (.scalar key false, value)

/-- A cluster with one node. -/
def plainCluster : Node :=
  .mapping [plainEntry "cluster" (.sequence [.mapping
    [plainEntry "status" (.mapping [plainEntry "allocatable" (.mapping [plainEntry "cpu" (.ofNat 4)])])]])]

/-- The same cluster with entries that nobody reads in the document, the node and the resource list. -/
def annotatedCluster : Node :=
  .mapping [plainEntry "apiVersion" (.ofString "v1"), plainEntry "cluster" (.sequence [.mapping
    [plainEntry "status" (.mapping [plainEntry "allocatable"
      (.mapping [plainEntry "cpu" (.ofNat 4), plainEntry "pods" (.ofNat 110)])]),
      plainEntry "kind" (.sequence [.null])]])]

/-- A workload with one job whose task has a container. -/
def plainWorkload : Node :=
  .mapping [plainEntry "jobs" (.sequence [.mapping [plainEntry "spec" (.mapping [plainEntry "tasks" (.sequence [.mapping
    [plainEntry "template" (.mapping [plainEntry "spec" (.mapping [plainEntry "containers" (.sequence [.mapping
      []])])])]])])]])]

/-- The same workload with entries that nobody reads in the specification of the job and in the container. -/
def annotatedWorkload : Node :=
  .mapping [plainEntry "jobs" (.sequence [.mapping [plainEntry "spec" (.mapping
    [plainEntry "schedulerName" (.ofString "volcano"), plainEntry "tasks" (.sequence [.mapping
    [plainEntry "template" (.mapping [plainEntry "spec" (.mapping [plainEntry "containers" (.sequence [.mapping
      [plainEntry "image" (.ofString "trainer")]])])])]])])]])]

section Plain

variable {Allowed : Node → Prop} (hplain : ∀ key, Allowed (.scalar key false))

include hplain in
/-- An entry under an unquoted key that is not known may be added. -/
theorem ExtendsEntries.added_plainEntry {known : KnownKeys} {entries entries' : List (Node × Node)} {key : String}
    (hkey : known.lookup key = none) (value : Node) (h : ExtendsEntries Allowed known entries entries') :
    ExtendsEntries Allowed known entries (plainEntry key value :: entries') := by
  refine .added value (hplain key) ?_ h
  rintro name ⟨⟩
  exact hkey

/-- An entry under an unquoted key that is known may be extended. -/
theorem ExtendsEntries.extended_plainEntry {known : KnownKeys} {entries entries' : List (Node × Node)} {key : String}
    {R : TreeRelation} {value value' : Node} (hkey : known.lookup key = some R) (hvalue : R value value')
    (h : ExtendsEntries Allowed known entries entries') :
    ExtendsEntries Allowed known (plainEntry key value :: entries) (plainEntry key value' :: entries') :=
  .extended rfl hkey hvalue h

include hplain in
/-- The cluster with annotations has more entries. -/
theorem annotatedCluster_extends : ClusterManifest.Extends Allowed plainCluster annotatedCluster := by
  refine .mapping (.added_plainEntry hplain rfl _ (.extended_plainEntry rfl (.sequence (.cons ?_ .nil)) .nil))
  refine .mapping (.extended_plainEntry rfl (.mapping ?_) (.added_plainEntry hplain rfl _ .nil))
  exact .extended_plainEntry rfl (.mapping (.kept _ (.added_plainEntry hplain rfl _ .nil))) .nil

include hplain in
/-- The workload with annotations has more entries. -/
theorem annotatedWorkload_extends : WorkloadManifest.Extends Allowed plainWorkload annotatedWorkload := by
  refine .mapping (.extended_plainEntry rfl (.sequence (.cons ?_ .nil)) .nil)
  refine .mapping (.extended_plainEntry rfl (.mapping ?_) .nil)
  refine .added_plainEntry hplain rfl _ (.extended_plainEntry rfl (.sequence (.cons ?_ .nil)) .nil)
  refine .mapping (.extended_plainEntry rfl (.mapping (.extended_plainEntry rfl (.mapping ?_) .nil)) .nil)
  refine .extended_plainEntry rfl (.sequence (.cons ?_ .nil)) .nil
  exact .mapping (.added_plainEntry hplain rfl _ .nil)

end Plain

/-- Such a cluster and such a workload load as they do without the entries. -/
theorem ofNode?_extended_annotated :
    ClusterManifest.Extends (fun _ => True) plainCluster annotatedCluster ∧
      WorkloadManifest.Extends (fun _ => True) plainWorkload annotatedWorkload ∧
      (ClusterManifest.ofNode? annotatedCluster = ClusterManifest.ofNode? plainCluster ∧
        (ClusterManifest.ofNode? annotatedCluster).map ClusterManifest.schedulableNodes =
          (ClusterManifest.ofNode? plainCluster).map ClusterManifest.schedulableNodes) ∧
      WorkloadManifest.ofNode? annotatedWorkload = WorkloadManifest.ofNode? plainWorkload ∧
      (WorkloadManifest.ofNode? annotatedWorkload).map WorkloadManifest.expand =
        (WorkloadManifest.ofNode? plainWorkload).map WorkloadManifest.expand := by
  have hcluster : ClusterManifest.Extends (fun _ => True) plainCluster annotatedCluster :=
    annotatedCluster_extends fun _ => trivial
  have hworkload : WorkloadManifest.Extends (fun _ => True) plainWorkload annotatedWorkload :=
    annotatedWorkload_extends fun _ => trivial
  have hloaded := ofNode?_extended hcluster hworkload
  have hscalar : ∀ key, IsScalar (.scalar key false) := fun key => ⟨key, false, rfl⟩
  exact ⟨hcluster, hworkload, hloaded.1.1 (annotatedCluster_extends hscalar),
    hloaded.2.1 (annotatedWorkload_extends hscalar)⟩

/-- A cluster with one node of which nothing is said. -/
def bareCluster : Node := .mapping [plainEntry "cluster" (.sequence [.mapping []])]

/-- The same cluster with an entry under a sequence. -/
def sequenceKeyCluster : Node :=
  .mapping [(.sequence [.ofString "a"], .ofNat 1), plainEntry "cluster" (.sequence [.mapping []])]

/-- One more entry can keep a manifest from being loaded: a key that is no scalar is refused even where nobody
reads it. -/
theorem ofNode?_sequenceKeyCluster : ClusterManifest.Extends (fun _ => True) bareCluster sequenceKeyCluster ∧
    ClusterManifest.ofNode? bareCluster = some ⟨[{}]⟩ ∧ ClusterManifest.ofNode? sequenceKeyCluster = none :=
  ⟨.mapping (.added _ trivial nofun (.kept _ .nil)), rfl, rfl⟩

end PodPlacement.Manifest
