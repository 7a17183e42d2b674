import IdeExport.Graph.Policy
import IdeExport.Graph.Project
/-!
# Snapshots

A snapshot is everything an export needs to know about a configured build: its settings, the policy of the
user and the projects.
-/
namespace IdeExport

structure Snapshot where
  build : BuildSettings
  policy : ExportPolicy := {}
  projects : List Project := []
  deriving DecidableEq, Repr

namespace Snapshot

def graphs (s : Snapshot) : List ProjectGraph := ProjectGraph.ofBuild s.build s.projects

def project? (s : Snapshot) (name : Text) : Option Project := s.projects.find? (·.name = name)

def defaultPath : Text := "cbexport.toml"

end Snapshot
end IdeExport
