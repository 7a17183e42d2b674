import IdeExport.CommandLine.Command
import IdeExport.Descriptor.Basic
import IdeExport.FileTree
/-!
# Places

A run looks at few places of a disk.  They are found out before the run, so a file tree with these places is as
good as the whole disk; and after the run the tree tells what has to be written.
-/
namespace IdeExport

namespace FileTree

def trailFrom (location : Location) : List Text → List Location
  | [] => [location]
  | piece :: pieces => location :: trailFrom (step location piece) pieces

/-- The locations that finding a path can depend on, the outermost first. -/
def trail (working : Location) (path : Text) : List Location :=
  trailFrom (if path.head? = some '/' then [] else working) (Text.split '/' path)

/-- What one tree has and another has not, in the order in which it was put there. -/
def changes (before after : FileTree) : List (Location × Entry) :=
  after.entries.reverse.filter (fun entry => before.entryAt? entry.1 ≠ some entry.2)

end FileTree

namespace CommandLine

def Command.snapshotPath? : Command → Option Text
  | .generate path _ _ | .check path _ | .targets path _ => some path
  | .version | .buildCommand _ _ _ _ _ => none

def headerPaths (graph : ProjectGraph) : List Text :=
  (Sources.classify graph.settings.sourceExtensions graph.targets).paired.flatMap
    (fun source => Sources.headerCandidates graph.settings.headerExtensions source.1)

def writtenPaths (graph : ProjectGraph) (policy : ExportPolicy) : List Text :=
  let directory := graph.project.outputDirectory
  Path.under directory (graph.name ++ "." ++ policy.extension) ::
    (Descriptor.markersOf graph).map (·.fullPath directory)

/-- The paths that a run with a snapshot can depend on. -/
def snapshotPaths (s : Snapshot) : List Text :=
  s.graphs.flatMap (fun graph => headerPaths graph ++ writtenPaths graph s.policy)

end CommandLine
end IdeExport
