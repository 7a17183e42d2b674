import IdeExport.Proofs.Descriptor.Units
import IdeExport.Proofs.ListFiles.HomeFiles
/-!
# The switches of a policy

A descriptor's tree is put together from parts, and every switch of the policy works on a part of its own
(`followSwitches_ofGraph`).  No switch has a say in whether a project passes, in what is said about it or in its
markers (`switches_independent`).
-/
namespace IdeExport

open Markup

/-! ## The parts of a tree -/

/-- What the tree of a descriptor is put together from.  A unit is the name of its file and what it holds. -/
structure TreeParts where
  options : List (Text × Text)
  /-- The target blocks of the build. -/
  blocks : List Element
  aliases : List Element
  /-- What comes between the aliases and the units. -/
  commands : List Element
  paired : List (Text × List Element)
  other : List (Text × List Element)
  listFiles : List (Text × List Element)

namespace TreeParts

open DescriptorTree

def units (parts : TreeParts) : List (Text × List Element) := parts.paired ++ parts.other ++ parts.listFiles

def tree (parts : TreeParts) : Element :=
  container "CodeBlocks_project_file"
    [{ name := "FileVersion", attributes := [("major", "1"), ("minor", "6")] },
     container "Project"
       (parts.options.map (fun option => Element.option option.1 option.2) ++
        [container "Build" parts.blocks, container "VirtualTargets" parts.aliases] ++
        parts.commands ++
        parts.units.map (fun file => unit file.1 file.2))]

def ofGraph (graph : ProjectGraph) (probe : Text → Bool) (policy : ExportPolicy) : TreeParts :=
  let artifacts := Artifacts.ofGraph graph policy probe
  { options :=
      [("title", graph.name), ("makefile_is_custom", "0"), ("compiler", compilerToken graph.settings.compilerId),
       ("virtualFolders", artifacts.folders.declaration)],
    blocks :=
      rebuildBlocks graph.settings policy.refresh ++ (listedTargets graph).map (targetBlock graph artifacts),
    aliases := (virtualTargets graph).children,
    commands := extraCommands graph.settings policy.refresh,
    paired := artifacts.sources.paired.map (fun file => (file.1, (pairedUnit policy.unitTargets file).children)),
    other := artifacts.sources.other.map (fun path => (path, [])),
    listFiles := (ListFiles.listEntries graph.settings policy.rootListFiles graph.project.listFiles).map
      (fun entry => (entry.path, (listFileUnit entry).children)) }

variable (graph : ProjectGraph) (policy : ExportPolicy) (probe : Text → Bool)

theorem root_eq_tree : root graph policy (.ofGraph graph policy probe) = (ofGraph graph probe policy).tree := by
  have hunits : (ofGraph graph probe policy).units.map (fun file => unit file.1 file.2) =
      sourceUnits policy (Artifacts.ofGraph graph policy probe).sources ++
        listFileUnits graph.settings (Artifacts.ofGraph graph policy probe).folders := by
    rw [units, List.map_append, List.map_append, ofGraph, List.map_map, List.map_map, List.map_map]
    rfl
  rw [tree, hunits, ← List.append_assoc]
  rfl

theorem descriptor_of_prepared {ctx : Context} (h : prepared graph policy probe = .ok ctx) :
    Descriptor.ofArtifacts graph policy ctx.artifacts =
      ⟨graph.name ++ "." ++ policy.extension, (ofGraph graph probe policy).tree, Descriptor.markersOf graph⟩ := by
  obtain ⟨-, -, rfl⟩ := prepared_eq_ok_iff.1 h
  rw [← root_eq_tree]
  rfl

/-! ## What a switch does -/

def isOwner (e : Element) : Bool := e.name = "Option" && e.valuesOf "target" ≠ []

def withoutOwners (parts : TreeParts) : TreeParts :=
  { parts with paired := parts.paired.map (fun file => (file.1, file.2.filter (!isOwner ·))) }

/-- What the unit of a list file in the home directory itself holds. -/
def topFolder : List Element := [Element.option "virtualFolder" "CMake Files\\"]

/-- The parts of trees follow the switches: policies that differ from a policy in one switch have trees that differ in
one part. -/
structure FollowSwitches (graph : ProjectGraph) (policy : ExportPolicy) (parts : ExportPolicy → TreeParts) :
    Prop where
  noRefresh : (parts { policy with refresh := .none }).commands = []
  refresh : ∃ command block : Element, command.name = "ExtraCommands" ∧
    block.name = "Target" ∧ block.childrenNamed "ExtraCommands" = [command] ∧
    parts { policy with refresh := .extraCommands } =
      { parts { policy with refresh := .none } with commands := [command] } ∧
    parts { policy with refresh := .rebuildTarget } =
      { parts { policy with refresh := .none } with
        blocks := block :: (parts { policy with refresh := .none }).blocks }
  unitTargets : parts { policy with unitTargets := false } =
    (parts { policy with unitTargets := true }).withoutOwners
  rootListFiles : parts { policy with rootListFiles := true } =
    { parts { policy with rootListFiles := false } with
      listFiles := (ListFiles.homeFiles graph.settings graph.project.listFiles).map
          (fun file => ((ListFiles.entryOf graph.settings file).path, topFolder)) ++
        (parts { policy with rootListFiles := false }).listFiles }
  noRootListFiles : ∀ file ∈ (parts { policy with rootListFiles := false }).listFiles, file.2 ≠ topFolder
  extension : ∀ extension, parts { policy with extension } = parts policy

theorem refresh_ofGraph : ∃ command block : Element, command.name = "ExtraCommands" ∧
    block.name = "Target" ∧ block.childrenNamed "ExtraCommands" = [command] ∧
    ofGraph graph probe { policy with refresh := .extraCommands } =
      { ofGraph graph probe { policy with refresh := .none } with commands := [command] } ∧
    ofGraph graph probe { policy with refresh := .rebuildTarget } =
      { ofGraph graph probe { policy with refresh := .none } with
        blocks := block :: (ofGraph graph probe { policy with refresh := .none }).blocks } :=
  ⟨refreshCommands graph.settings, rebuildBlock graph.settings, rfl, rfl, rfl, rfl, rfl⟩

theorem filter_owners (owners : List Text) :
    (owners.map (Element.option "target")).filter (!isOwner ·) = [] := by
  rw [List.filter_eq_nil_iff]
  intro e he
  obtain ⟨owner, -, rfl⟩ := List.mem_map.1 he
  have howner : isOwner (Element.option "target" owner) = true := rfl
  rw [howner]
  exact Bool.false_ne_true

theorem unitTargets_ofGraph : ofGraph graph probe { policy with unitTargets := false } =
    (ofGraph graph probe { policy with unitTargets := true }).withoutOwners := by
  have hpaired : (ofGraph graph probe { policy with unitTargets := true }).withoutOwners.paired =
      (ofGraph graph probe { policy with unitTargets := false }).paired := by
    rw [withoutOwners, ofGraph, ofGraph, List.map_map]
    apply List.map_congr_left
    intro file _
    exact congrArg (Prod.mk file.1) (filter_owners file.2)
  calc ofGraph graph probe { policy with unitTargets := false }
      = { ofGraph graph probe { policy with unitTargets := true } with
          paired := (ofGraph graph probe { policy with unitTargets := false }).paired } := rfl
    _ = (ofGraph graph probe { policy with unitTargets := true }).withoutOwners := by
        rw [← hpaired]
        rfl

theorem rootListFiles_ofGraph : ofGraph graph probe { policy with rootListFiles := true } =
    { ofGraph graph probe { policy with rootListFiles := false } with
      listFiles := (ListFiles.homeFiles graph.settings graph.project.listFiles).map
          (fun file => ((ListFiles.entryOf graph.settings file).path, topFolder)) ++
        (ofGraph graph probe { policy with rootListFiles := false }).listFiles } := by
  -- the folders are declared in an option, which has to stay as it is
  have hoptions : (ofGraph graph probe { policy with rootListFiles := true }).options =
      (ofGraph graph probe { policy with rootListFiles := false }).options := by
    have hdeclaration := ListFiles.declaration_includeRoot graph.settings graph.project.listFiles
    rw [ofGraph, ofGraph, Artifacts.ofGraph, Artifacts.ofGraph]
    dsimp only
    rw [hdeclaration]
  have hlistFiles : (ofGraph graph probe { policy with rootListFiles := true }).listFiles =
      (ListFiles.homeFiles graph.settings graph.project.listFiles).map
          (fun file => ((ListFiles.entryOf graph.settings file).path, topFolder)) ++
        (ofGraph graph probe { policy with rootListFiles := false }).listFiles := by
    rw [ofGraph, ListFiles.listEntries_includeRoot, List.map_append, List.map_map]
    refine congrArg (· ++ _) (List.map_congr_left ?_)
    intro file hfile
    have hfolder := ListFiles.folder_of_mem_homeFiles hfile
    show ((ListFiles.entryOf graph.settings file).path, [Element.option "virtualFolder" _]) = _
    rw [hfolder]
    rfl
  calc ofGraph graph probe { policy with rootListFiles := true }
      = { ofGraph graph probe { policy with rootListFiles := false } with
          options := (ofGraph graph probe { policy with rootListFiles := true }).options
          listFiles := (ofGraph graph probe { policy with rootListFiles := true }).listFiles } := rfl
    _ = _ := by rw [hoptions, hlistFiles]

theorem ne_topFolder_of_mem_listFiles {file : Text × List Element}
    (h : file ∈ (ofGraph graph probe { policy with rootListFiles := false }).listFiles) : file.2 ≠ topFolder := by
  obtain ⟨entry, hentry, rfl⟩ := List.mem_map.1 h
  intro htop
  have hattributes := congrArg Element.attributes (List.singleton_inj.1 htop)
  have hfolder : entry.folder = "CMake Files\\" := congrArg Prod.snd (List.singleton_inj.1 hattributes)
  exact ListFiles.folder_of_mem_listEntries hentry hfolder

theorem followSwitches_ofGraph : FollowSwitches graph policy (ofGraph graph probe) where
  noRefresh := rfl
  refresh := refresh_ofGraph graph policy probe
  unitTargets := unitTargets_ofGraph graph policy probe
  rootListFiles := rootListFiles_ofGraph graph policy probe
  noRootListFiles _ hfile := ne_topFolder_of_mem_listFiles graph policy probe hfile
  extension _ := rfl

end TreeParts

/-! ## Policies that differ in one switch -/

namespace Descriptor

/-- **The switches of a policy are independent.**  Whether a project passes and what is said about it is the same for
all policies.  If it passes, its descriptor has the same markers for all of them, the policy's extension in its file
name, and a tree whose parts follow the other switches. -/
theorem switches_independent (graph : ProjectGraph) (policy : ExportPolicy) (probe : Text → Bool) :
    (∀ other, verdict (prepare graph other probe []) = verdict (prepare graph policy probe [])) ∧
    (∀ other ctx, prepared graph other probe = .ok ctx → ofArtifacts graph other ctx.artifacts =
      ⟨graph.name ++ "." ++ other.extension, (TreeParts.ofGraph graph probe other).tree, markersOf graph⟩) ∧
    TreeParts.FollowSwitches graph policy (TreeParts.ofGraph graph probe) := by
  refine ⟨fun other => ?_, fun other ctx h => ?_, ?_⟩
  · exact verdict_prepare_congr rfl rfl rfl other policy probe probe
  · exact TreeParts.descriptor_of_prepared graph other probe h
  · exact TreeParts.followSwitches_ofGraph graph policy probe

theorem switches_independent_graphWithListFiles :
    let graph := graphWithListFiles ["/s/lib/CMakeLists.txt", "/s/CMakeLists.txt"]
    let parts := TreeParts.ofGraph graph (fun _ => false)
    prepared graph {} (fun _ => false) = .ok (.passed graph {} fun _ => false) ∧
    (ofArtifacts graph {} (Context.passed graph {} fun _ => false).artifacts).root = (parts {}).tree ∧
    (parts { rootListFiles := true }).listFiles =
      ("/s/CMakeLists.txt".toList, TreeParts.topFolder) :: (parts { rootListFiles := false }).listFiles := by
  intro graph parts
  have hprepared := prepared_graphWithListFiles ["/s/lib/CMakeLists.txt", "/s/CMakeLists.txt"]
  obtain ⟨-, hdescriptor, hfollow⟩ := switches_independent graph {} (fun _ => false)
  have hlistFiles := congrArg TreeParts.listFiles hfollow.rootListFiles
  exact ⟨hprepared, congrArg Descriptor.root (hdescriptor {} _ hprepared), hlistFiles⟩

end Descriptor
end IdeExport
