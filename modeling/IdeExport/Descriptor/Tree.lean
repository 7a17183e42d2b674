import IdeExport.Descriptor.Target
import IdeExport.Markup.Element
import IdeExport.Pipeline.Basic
/-!
# Descriptor trees

The descriptor of a project as a tree of elements.  Every element is a function of the graph, the policy and
the artifacts, and how the tree is put together can be read off `project`.
-/
namespace IdeExport
namespace DescriptorTree

open Markup

/-! ## Small elements -/

def container (name : Text) (children : List Element) : Element := { name, children, container := true }

def add (key value : Text) : Element := { name := "Add", attributes := [(key, value)] }

/-! ## Target blocks -/

def outputPath (graph : ProjectGraph) (target : Target) : Text :=
  if target.kind = .objectLibrary then (ObjectMarker.ofTarget target).path
  else (target.locationFor graph.buildType).getD []

def workingDirectory (settings : BuildSettings) (target : Target) : Text :=
  if target.kind = .executable then
    (settings.runtimeOutputDirectory.or settings.executableOutputPath).getD target.buildDirectory
  else target.buildDirectory

def compilerBlock (s : TargetSettings) : Element :=
  container "Compiler"
    (s.defines.map (fun define => add "option" ("-D" ++ define)) ++
     s.flags.map (add "option") ++
     s.includeDirectories.map (add "directory"))

def linkElements (link : LinkEntry) : List Element :=
  link.directory.toList.map (add "directory") ++ [add "library" link.library]

def linkerBlocks (s : TargetSettings) : List Element :=
  if s.links.isEmpty then [] else [{ name := "Linker", children := s.links.flatMap linkElements }]

/-- The blocks for the settings of a target, of which nothing may be known. -/
def settingsBlocks : Option TargetSettings → List Element
  | some s => compilerBlock s :: linkerBlocks s
  | none => [compilerBlock {}]

def outputOption (output : Text) : Element :=
  ((Element.option "output" output).withAttribute "prefix_auto" "0").withAttribute "extension_auto" "0"

def buildableBlock (graph : ProjectGraph) (settings : Option TargetSettings) (target : Target) : Element where
  name := "Target"
  attributes := [("title", target.name)]
  children :=
    [outputOption (outputPath graph target),
     Element.option "working_dir" (workingDirectory graph.settings target),
     Element.option "object_output" "./",
     Element.option "type" (Text.ofNat target.typeCode),
     Element.option "compiler" (compilerToken graph.settings.compilerId)] ++
    settingsBlocks settings

def utilityBlock (target : Target) : Element where
  name := "Target"
  attributes := [("title", target.name)]
  children := [Element.option "working_dir" target.buildDirectory, Element.option "type" "4"]

def targetBlock (graph : ProjectGraph) (artifacts : Artifacts) (target : Target) : Element :=
  if target.kind.isBuildable then buildableBlock graph (artifacts.settings.lookup target.name) target
  else utilityBlock target

def listedTargets (graph : ProjectGraph) : List Target := graph.targets.filter (·.isListed)

/-! ## Configuring again -/

def refreshCommand (settings : BuildSettings) : Text :=
  let command := settings.configureCommand.getD []
  command ++ " chdir " ++ settings.homeOutputDirectory ++ " && " ++ command ++ " " ++ settings.homeDirectory

def refreshCommands (settings : BuildSettings) : Element where
  name := "ExtraCommands"
  children := [add "before" (refreshCommand settings), { name := "Mode", attributes := [("after", "always")] }]

/-- A target of its own for configuring again. -/
def rebuildBlock (settings : BuildSettings) : Element where
  name := "Target"
  attributes := [("title", "rebuild_cache")]
  children := [Element.option "type" "4", refreshCommands settings]

def rebuildBlocks (settings : BuildSettings) (style : RefreshStyle) : List Element :=
  if style = .rebuildTarget then [rebuildBlock settings] else []

def extraCommands (settings : BuildSettings) (style : RefreshStyle) : List Element :=
  if style = .extraCommands then [refreshCommands settings] else []

/-! ## Units -/

def unit (path : Text) (children : List Element) : Element :=
  { name := "Unit", attributes := [("filename", path)], children, container := true }

def pairedUnit (unitTargets : Bool) (file : Text × List Text) : Element :=
  unit file.1 (if unitTargets then file.2.map (Element.option "target") else [])

def listFileUnit (entry : FolderEntry) : Element :=
  unit entry.path [Element.option "virtualFolder" entry.folder]

def sourceUnits (policy : ExportPolicy) (sources : Sources) : List Element :=
  sources.paired.map (pairedUnit policy.unitTargets) ++ sources.other.map (fun path => unit path [])

def listFileUnits (settings : BuildSettings) (folders : Folder) : List Element :=
  (folders.entries (ListFiles.entryBase settings)).map listFileUnit

/-! ## The whole -/

def build (graph : ProjectGraph) (policy : ExportPolicy) (artifacts : Artifacts) : Element :=
  container "Build"
    (rebuildBlocks graph.settings policy.refresh ++ (listedTargets graph).map (targetBlock graph artifacts))

def allTargets (graph : ProjectGraph) : Text :=
  Text.terminated ";" (((listedTargets graph).filter (·.kind.isBuildable)).map (·.name))

def virtualTargets (graph : ProjectGraph) : Element :=
  container "VirtualTargets" [{ name := "Add", attributes := [("alias", "All"), ("targets", allTargets graph)] }]

def project (graph : ProjectGraph) (policy : ExportPolicy) (artifacts : Artifacts) : Element :=
  container "Project"
    ([Element.option "title" graph.name,
      Element.option "makefile_is_custom" "0",
      Element.option "compiler" (compilerToken graph.settings.compilerId),
      Element.option "virtualFolders" artifacts.folders.declaration,
      build graph policy artifacts,
      virtualTargets graph] ++
     extraCommands graph.settings policy.refresh ++
     sourceUnits policy artifacts.sources ++
     listFileUnits graph.settings artifacts.folders)

def root (graph : ProjectGraph) (policy : ExportPolicy) (artifacts : Artifacts) : Element :=
  container "CodeBlocks_project_file"
    [{ name := "FileVersion", attributes := [("major", "1"), ("minor", "6")] },
     project graph policy artifacts]

end DescriptorTree
end IdeExport
