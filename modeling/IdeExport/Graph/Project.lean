import IdeExport.Graph.Settings
import IdeExport.Graph.Target
/-!
# Projects

A project is a group of targets that gets one descriptor.  A project graph is a project in its build: the
settings, and the other projects in which a link may find its target.
-/
namespace IdeExport

structure Project where
  name : Text
  outputDirectory : Text
  listFiles : List Text := []
  targets : List Target := []
  deriving DecidableEq, Repr

structure ProjectGraph where
  settings : BuildSettings
  project : Project
  siblings : List Project := []
  deriving DecidableEq, Repr

namespace ProjectGraph

def name (graph : ProjectGraph) : Text := graph.project.name

def targets (graph : ProjectGraph) : List Target := graph.project.targets

def buildType (graph : ProjectGraph) : Option Text := graph.settings.buildType

/-- The target of a name: the first among the project's own targets, else the first among those of all
siblings. -/
def findTarget (graph : ProjectGraph) (name : Text) : Option Target :=
  (graph.project.targets ++ graph.siblings.flatMap Project.targets).find? (·.name = name)

/-- Every project of a build, each with all of them as siblings. -/
def ofBuild (settings : BuildSettings) (projects : List Project) : List ProjectGraph :=
  projects.map (fun project => ⟨settings, project, projects⟩)

end ProjectGraph

end IdeExport
