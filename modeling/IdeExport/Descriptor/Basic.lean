import IdeExport.Descriptor.Tree
/-!
# Descriptors

The project file of a project, and the marker files that it points at.
-/
namespace IdeExport

structure Descriptor where
  fileName : Text
  root : Markup.Element
  markers : List ObjectMarker
  deriving Repr

namespace Descriptor

def declarationLine : Text := "<?xml version=\"1.0\" encoding=\"UTF-8\" standalone=\"yes\" ?>"

def content (d : Descriptor) : Text :=
  ((({} : Markup.Builder).pushLine declarationLine).pushElement d.root).text

def markersOf (graph : ProjectGraph) : List ObjectMarker :=
  ((DescriptorTree.listedTargets graph).filter (·.kind = .objectLibrary)).map ObjectMarker.ofTarget

def ofArtifacts (graph : ProjectGraph) (policy : ExportPolicy) (artifacts : Artifacts) : Descriptor where
  fileName := graph.name ++ "." ++ policy.extension
  root := DescriptorTree.root graph policy artifacts
  markers := markersOf graph

def path (d : Descriptor) (outputDirectory : Text) : Text := Path.under outputDirectory d.fileName

end Descriptor

/-- Where a marker goes; the path of a marker is usually absolute. -/
def ObjectMarker.fullPath (marker : ObjectMarker) (outputDirectory : Text) : Text :=
  Path.under outputDirectory marker.path

end IdeExport
