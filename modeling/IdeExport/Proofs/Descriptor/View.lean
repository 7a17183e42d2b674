import IdeExport.Descriptor.Basic
/-!
# Looking into descriptors

What a reader of a descriptor finds in its tree, by the names of elements and the keys of attributes alone: units
with their file names and owners, target blocks with their titles and options, and the targets of the alias.  For the
descriptor of a project each of these is a list that can be written down from the graph and the artifacts.
-/
namespace IdeExport

open Markup

namespace Markup.Element

def childrenNamed (name : Text) (e : Element) : List Element := e.children.filter (·.name = name)

def valuesOf (key : Text) (e : Element) : List Text := (e.attributes.filter (·.1 = key)).map (·.2)

def optionValues (key : Text) (e : Element) : List Text := (e.childrenNamed "Option").flatMap (valuesOf key)

end Markup.Element

namespace Descriptor

/-! ## Parts of a tree -/

def projects (d : Descriptor) : List Element := d.root.childrenNamed "Project"

def units (d : Descriptor) : List Element := d.projects.flatMap (Element.childrenNamed "Unit")

def targetBlocks (d : Descriptor) : List Element :=
  (d.projects.flatMap (Element.childrenNamed "Build")).flatMap (Element.childrenNamed "Target")

/-- The files of all units, in order and as often as they are listed. -/
def fileNames (d : Descriptor) : List Text := d.units.flatMap (Element.valuesOf "filename")

def ownerNames (d : Descriptor) : List Text :=
  (d.units.flatMap (Element.childrenNamed "Option")).flatMap (Element.valuesOf "target")

def targetTitles (d : Descriptor) : List Text := d.targetBlocks.flatMap (Element.valuesOf "title")

def aliasTargets (d : Descriptor) : List Text :=
  (((d.projects.flatMap (Element.childrenNamed "VirtualTargets")).flatMap (Element.childrenNamed "Add")).filter
    (fun e => e.valuesOf "alias" = ["All".toList])).flatMap (Element.valuesOf "targets")

end Descriptor

/-! ## Blocks -/

namespace DescriptorTree

theorem filter_named_eq_self {name : Text} {es : List Element} (h : ∀ e ∈ es, e.name = name) :
    es.filter (·.name = name) = es :=
  List.filter_eq_self.2 (fun e he => by simp [h e he])

theorem filter_named_eq_nil {name other : Text} {es : List Element} (h : ∀ e ∈ es, e.name = other)
    (hne : other ≠ name) : es.filter (·.name = name) = [] :=
  List.filter_eq_nil_iff.2 (fun e he => by simp [h e he, hne])

theorem name_of_mem_extraCommands {settings : BuildSettings} {style : RefreshStyle} {e : Element}
    (h : e ∈ extraCommands settings style) : e.name = "ExtraCommands" := by
  unfold extraCommands at h
  split at h
  · rw [List.mem_singleton.1 h]; rfl
  · cases h

theorem name_of_mem_sourceUnits {policy : ExportPolicy} {sources : Sources} {e : Element}
    (h : e ∈ sourceUnits policy sources) : e.name = "Unit" := by
  rcases List.mem_append.1 h with h | h
  · obtain ⟨file, -, rfl⟩ := List.mem_map.1 h; rfl
  · obtain ⟨path, -, rfl⟩ := List.mem_map.1 h; rfl

theorem name_of_mem_listFileUnits {settings : BuildSettings} {folders : Folder} {e : Element}
    (h : e ∈ listFileUnits settings folders) : e.name = "Unit" := by
  obtain ⟨entry, -, rfl⟩ := List.mem_map.1 h; rfl

theorem name_targetBlock (graph : ProjectGraph) (artifacts : Artifacts) (target : Target) :
    (targetBlock graph artifacts target).name = "Target" := by
  unfold targetBlock
  split <;> rfl

theorem title_targetBlock (graph : ProjectGraph) (artifacts : Artifacts) (target : Target) :
    (targetBlock graph artifacts target).valuesOf "title" = [target.name] := by
  unfold targetBlock
  split <;> rfl

theorem name_of_mem_rebuildBlocks {settings : BuildSettings} {style : RefreshStyle} {e : Element}
    (h : e ∈ rebuildBlocks settings style) : e.name = "Target" := by
  unfold rebuildBlocks at h
  split at h
  · rw [List.mem_singleton.1 h]; rfl
  · cases h

def rebuildTitles (style : RefreshStyle) : List Text := if style = .rebuildTarget then ["rebuild_cache"] else []

theorem title_rebuildBlocks (settings : BuildSettings) (style : RefreshStyle) :
    (rebuildBlocks settings style).flatMap (Element.valuesOf "title") = rebuildTitles style := by
  unfold rebuildBlocks rebuildTitles
  split <;> rfl

theorem owners_pairedUnit (unitTargets : Bool) (file : Text × List Text) :
    ((pairedUnit unitTargets file).childrenNamed "Option").flatMap (Element.valuesOf "target")
      = if unitTargets then file.2 else [] := by
  cases unitTargets with
  | false => rfl
  | true =>
    have hnamed : (pairedUnit true file).childrenNamed "Option" = file.2.map (Element.option "target") :=
      filter_named_eq_self (fun e he => by obtain ⟨owner, -, rfl⟩ := List.mem_map.1 he; rfl)
    rw [hnamed, List.flatMap_map, if_pos rfl]
    exact List.flatMap_singleton' file.2

end DescriptorTree

/-! ## The descriptor of a project -/

namespace Descriptor

open DescriptorTree

variable (graph : ProjectGraph) (policy : ExportPolicy) (artifacts : Artifacts)

theorem units_ofArtifacts : (ofArtifacts graph policy artifacts).units =
    sourceUnits policy artifacts.sources ++ listFileUnits graph.settings artifacts.folders := by
  have hproject : (ofArtifacts graph policy artifacts).units
      = (project graph policy artifacts).childrenNamed "Unit" := List.append_nil _
  rw [hproject, Element.childrenNamed, project, container, List.filter_append, List.filter_append, List.filter_append,
    filter_named_eq_nil (fun e he => name_of_mem_extraCommands he) (by decide),
    filter_named_eq_self (fun e he => name_of_mem_sourceUnits he),
    filter_named_eq_self (fun e he => name_of_mem_listFileUnits he), List.append_nil]
  rfl

theorem fileNames_ofArtifacts : (ofArtifacts graph policy artifacts).fileNames =
    artifacts.sources.paired.map (·.1) ++ artifacts.sources.other ++
      (artifacts.folders.entries (ListFiles.entryBase graph.settings)).map (·.path) := by
  rw [fileNames, units_ofArtifacts, sourceUnits, listFileUnits, List.flatMap_append, List.flatMap_append,
    List.flatMap_map, List.flatMap_map, List.flatMap_map]
  have hpaired : artifacts.sources.paired.flatMap (fun file => (pairedUnit policy.unitTargets file).valuesOf "filename")
      = artifacts.sources.paired.map (·.1) := List.map_eq_flatMap.symm
  have hother : artifacts.sources.other.flatMap (fun path => (unit path []).valuesOf "filename")
      = artifacts.sources.other := List.flatMap_singleton' _
  have hlist : (artifacts.folders.entries (ListFiles.entryBase graph.settings)).flatMap
      (fun entry => (listFileUnit entry).valuesOf "filename")
      = (artifacts.folders.entries (ListFiles.entryBase graph.settings)).map (·.path) := List.map_eq_flatMap.symm
  rw [hpaired, hother, hlist]

/-- **Units name the owners of paired files**, if the policy wants that, and nothing else. -/
theorem ownerNames_ofArtifacts : (ofArtifacts graph policy artifacts).ownerNames =
    artifacts.sources.paired.flatMap (fun file => if policy.unitTargets then file.2 else []) := by
  rw [ownerNames, units_ofArtifacts, sourceUnits, listFileUnits]
  simp only [List.flatMap_append, List.flatMap_map, List.flatMap_assoc, owners_pairedUnit]
  have hother : artifacts.sources.other.flatMap
      (fun path => ((unit path []).childrenNamed "Option").flatMap (Element.valuesOf "target")) = [] :=
    List.flatMap_eq_nil_iff.2 (fun _ _ => rfl)
  have hlist : (artifacts.folders.entries (ListFiles.entryBase graph.settings)).flatMap
      (fun entry => ((listFileUnit entry).childrenNamed "Option").flatMap (Element.valuesOf "target")) = [] :=
    List.flatMap_eq_nil_iff.2 (fun _ _ => rfl)
  rw [hother, hlist, List.append_nil, List.append_nil]

/-- Only units and the commands of the refresh style come after the first six elements of a project. -/
theorem childrenNamed_project {name : Text} (hextra : "ExtraCommands".toList ≠ name) (hunit : "Unit".toList ≠ name) :
    (project graph policy artifacts).childrenNamed name =
      ((project graph policy artifacts).children.take 6).filter (·.name = name) := by
  rw [Element.childrenNamed, project, container, List.filter_append, List.filter_append, List.filter_append,
    filter_named_eq_nil (fun e he => name_of_mem_extraCommands he) hextra,
    filter_named_eq_nil (fun e he => name_of_mem_sourceUnits he) hunit,
    filter_named_eq_nil (fun e he => name_of_mem_listFileUnits he) hunit, List.append_nil, List.append_nil,
    List.append_nil]
  rfl

theorem builds_ofArtifacts :
    (project graph policy artifacts).childrenNamed "Build" = [build graph policy artifacts] :=
  childrenNamed_project graph policy artifacts (by decide) (by decide)

theorem aliasTargets_ofArtifacts : (ofArtifacts graph policy artifacts).aliasTargets = [allTargets graph] := by
  have hproject : (ofArtifacts graph policy artifacts).projects = [project graph policy artifacts] := rfl
  have hvirtual : (project graph policy artifacts).childrenNamed "VirtualTargets" = [virtualTargets graph] :=
    childrenNamed_project graph policy artifacts (by decide) (by decide)
  rw [aliasTargets, hproject, List.flatMap_singleton, hvirtual]
  rfl

theorem targetBlocks_ofArtifacts : (ofArtifacts graph policy artifacts).targetBlocks =
    rebuildBlocks graph.settings policy.refresh ++ (listedTargets graph).map (targetBlock graph artifacts) := by
  have hproject : (ofArtifacts graph policy artifacts).projects = [project graph policy artifacts] := rfl
  have hblocks : ∀ e ∈ (listedTargets graph).map (targetBlock graph artifacts), e.name = "Target" := by
    intro e he
    obtain ⟨target, -, rfl⟩ := List.mem_map.1 he
    exact name_targetBlock graph artifacts target
  rw [targetBlocks, hproject, List.flatMap_singleton, builds_ofArtifacts, List.flatMap_singleton, Element.childrenNamed,
    build, container, List.filter_append, filter_named_eq_self (fun e he => name_of_mem_rebuildBlocks he),
    filter_named_eq_self hblocks]

/-- **Target blocks have the names of the listed targets as their titles**, after the block of the refresh style. -/
theorem targetTitles_ofArtifacts : (ofArtifacts graph policy artifacts).targetTitles =
    rebuildTitles policy.refresh ++ (listedTargets graph).map (·.name) := by
  rw [targetTitles, targetBlocks_ofArtifacts, List.flatMap_append, title_rebuildBlocks, List.flatMap_map]
  simp only [title_targetBlock]
  rw [← List.map_eq_flatMap]

end Descriptor
end IdeExport
