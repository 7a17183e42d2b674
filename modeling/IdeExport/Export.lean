import IdeExport.Descriptor.Basic
import IdeExport.FileTree
import IdeExport.Pipeline.Phases
/-!
# Exports

An export prepares every project before it writes anything, so a project that fails leaves no files of the
others behind.  A prepared project is then either shown (a dry run) or written: its project file first, and
after that the markers.  A project whose file cannot be written is abandoned and the others go on; a marker
that cannot be written is passed over.
-/
namespace IdeExport

structure ExportFailure where
  project : Text
  cause : PhaseFailure
  deriving DecidableEq, Repr

def ExportFailure.message (failure : ExportFailure) : Text :=
  "failed to export project '" ++ failure.project ++ "': " ++ failure.cause.message

structure Preview where
  path : Text
  fileName : Text
  content : Text
  /-- The paths of the markers, as the project file has them. -/
  markers : List Text
  deriving DecidableEq, Repr

/-- What became of one project.  The reason of an abandoned one is only the outermost text of the error: the fault of the
system behind it is left out. -/
inductive ExportOutcome
  | written (project path : Text) (markers : List Text) (diagnostics : List Diagnostic)
  | abandoned (project reason : Text)
  | rendered (project : Text) (preview : Preview) (diagnostics : List Diagnostic)
  deriving DecidableEq, Repr

namespace ExportOutcome

def project : ExportOutcome → Text
  | written project _ _ _ | abandoned project _ | rendered project _ _ => project

def isAbandoned : ExportOutcome → Bool
  | abandoned _ _ => true
  | _ => false

def diagnostics : ExportOutcome → List Diagnostic
  | written _ _ _ diagnostics | rendered _ _ diagnostics => diagnostics
  | abandoned _ _ => []

end ExportOutcome

/-! ## Prepared projects -/

structure PreparedProject where
  project : Text
  outputDirectory : Text
  descriptor : Descriptor
  diagnostics : List Diagnostic
  deriving Repr

namespace PreparedProject

def ofContext (ctx : Context) : PreparedProject where
  project := ctx.graph.name
  outputDirectory := ctx.graph.project.outputDirectory
  descriptor := .ofArtifacts ctx.graph ctx.policy ctx.artifacts
  diagnostics := ctx.diagnostics

def path (p : PreparedProject) : Text := p.descriptor.path p.outputDirectory

def markerFiles (p : PreparedProject) : List (Text × Text) :=
  p.descriptor.markers.map (fun marker => (marker.fullPath p.outputDirectory, marker.content))

def preview (p : PreparedProject) : Preview :=
  ⟨p.path, p.descriptor.fileName, p.descriptor.content, p.descriptor.markers.map (·.path)⟩

def shown (p : PreparedProject) : ExportOutcome := .rendered p.project p.preview p.diagnostics

end PreparedProject

def prepareProject (policy : ExportPolicy) (probe : Text → Bool) (graph : ProjectGraph) :
    Except ExportFailure PreparedProject :=
  match prepared graph policy probe with
  | .ok ctx => .ok (.ofContext ctx)
  | .error cause => .error ⟨graph.name, cause⟩

def prepareProjects (policy : ExportPolicy) (probe : Text → Bool) :
    List ProjectGraph → Except ExportFailure (List PreparedProject)
  | [] => .ok []
  | graph :: graphs =>
    match prepareProject policy probe graph with
    | .error failure => .error failure
    | .ok p =>
      match prepareProjects policy probe graphs with
      | .error failure => .error failure
      | .ok ps => .ok (p :: ps)

/-! ## Writing -/

def writeMarkers (tree : FileTree) : List (Text × Text) → List Text × FileTree
  | [] => ([], tree)
  | (path, content) :: markers =>
    match tree.write {} path content with
    | (.ok _, tree) =>
      let (paths, tree) := writeMarkers tree markers
      (path :: paths, tree)
    | (.error _, tree) => writeMarkers tree markers

def writeProject (tree : FileTree) (p : PreparedProject) : ExportOutcome × FileTree :=
  match tree.write .existingDirectory p.path p.descriptor.content with
  | (.error e, tree) => (.abandoned p.project e.message, tree)
  | (.ok _, tree) =>
    let (markers, tree) := writeMarkers tree p.markerFiles
    (.written p.project p.path markers p.diagnostics, tree)

/-! ## Exports -/

/-- How projects are exported.  A probe tells which paths name files in the tree there is. -/
structure Exporter where
  policy : ExportPolicy
  probe : FileTree → Text → Bool := FileTree.isFile
  /-- Whether project files are shown and not written. -/
  dry : Bool := false

namespace Exporter

def withDry (exporter : Exporter) (dry : Bool) : Exporter := { exporter with dry }

def finish (exporter : Exporter) (tree : FileTree) (p : PreparedProject) : ExportOutcome × FileTree :=
  if exporter.dry then (p.shown, tree) else writeProject tree p

def finishAll (exporter : Exporter) (tree : FileTree) : List PreparedProject → List ExportOutcome × FileTree
  | [] => ([], tree)
  | p :: ps =>
    let (outcome, tree) := exporter.finish tree p
    let (outcomes, tree) := exporter.finishAll tree ps
    (outcome :: outcomes, tree)

/-- Export projects.  All of them are prepared before the first is finished. -/
def run (exporter : Exporter) (tree : FileTree) (graphs : List ProjectGraph) :
    Except ExportFailure (List ExportOutcome) × FileTree :=
  match prepareProjects exporter.policy (exporter.probe tree) graphs with
  | .ok ps =>
    let (outcomes, tree) := exporter.finishAll tree ps
    (.ok outcomes, tree)
  | .error failure => (.error failure, tree)

end Exporter

/-- What an export would write, by a probe that asks no tree. -/
def dryRun (policy : ExportPolicy) (probe : Text → Bool) (graphs : List ProjectGraph) :
    Except ExportFailure (List ExportOutcome) :=
  (Exporter.run { policy, probe := fun _ => probe, dry := true } {} graphs).1

/-- Export projects into a file tree, which is also where headers are looked for. -/
def exportAll (tree : FileTree) (policy : ExportPolicy) (graphs : List ProjectGraph) :
    Except ExportFailure (List ExportOutcome) × FileTree :=
  Exporter.run { policy } tree graphs

end IdeExport
