import IdeExport.Graph.Project
import IdeExport.ListValue
/-!
# Target settings

What a target is compiled and linked with, gathered from the target, its directory and the build.  Every entry
is a list value; of items that are given twice the first one counts.
-/
namespace IdeExport

/-- A library to link with, and the directory it is in if the library is a target with a location. -/
structure LinkEntry where
  library : Text
  directory : Option Text
  deriving DecidableEq, Repr

structure TargetSettings where
  defines : List Text := []
  flags : List Text := []
  includeDirectories : List Text := []
  links : List LinkEntry := []
  deriving DecidableEq, Repr

namespace TargetSettings

def hasCompilerSettings (s : TargetSettings) : Bool :=
  !(s.defines.isEmpty && s.flags.isEmpty && s.includeDirectories.isEmpty)

/-- The items of some list values, without those that came before. -/
def distinctItems (values : List Text) : List Text := (ListValue.allItems values).eraseDups

def libraryName (item : Text) : Text := (Text.dropLeading? "-l" item).getD item

def linkEntry (graph : ProjectGraph) (item : Text) : LinkEntry where
  library := libraryName item
  directory := do
    let target ← graph.findTarget item
    let location ← target.locationFor graph.buildType
    Path.parentDirectory location

def ofTarget (graph : ProjectGraph) (target : Target) : TargetSettings where
  defines := distinctItems (target.directoryDefines ++ target.defines)
  flags := distinctItems (target.compileFlags ++ graph.settings.sharedLibraryFlags)
  includeDirectories := distinctItems
    (target.includeDirectories ++ graph.settings.cSystemIncludes ++ graph.settings.cxxSystemIncludes)
  links := target.linkLibraries.map (linkEntry graph)

end TargetSettings
end IdeExport
