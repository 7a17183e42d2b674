import IdeExport.Graph.Language
import IdeExport.Path.Lexical
import IdeExport.Text.Map
/-!
# Targets

What a build produces, and the sources it is made of.
-/
namespace IdeExport

/-! ## Kinds -/

inductive TargetKind
  | executable
  | staticLibrary
  | sharedLibrary
  | moduleLibrary
  | objectLibrary
  | utility
  | other
  deriving DecidableEq, Repr

namespace TargetKind

def all : List TargetKind :=
  [executable, staticLibrary, sharedLibrary, moduleLibrary, objectLibrary, utility, other]

def name : TargetKind → Text
  | executable => "executable"
  | staticLibrary => "static-library"
  | sharedLibrary => "shared-library"
  | moduleLibrary => "module-library"
  | objectLibrary => "object-library"
  | utility => "utility"
  | other => "other"

def ofName? (n : Text) : Option TargetKind := all.find? (·.name = n)

/-- Whether a compiler works on a target of this kind. -/
def isBuildable : TargetKind → Bool
  | executable | staticLibrary | sharedLibrary | moduleLibrary | objectLibrary => true
  | utility | other => false

def hasSources (kind : TargetKind) : Bool := kind.isBuildable || kind = utility

theorem ofName?_name (kind : TargetKind) : ofName? kind.name = some kind := by
  cases kind <;> decide

end TargetKind

/-! ## Sources and targets -/

structure SourceFile where
  path : Text
  language : Option Language := none
  /-- A file that the build itself writes is never listed. -/
  generated : Bool := false
  deriving DecidableEq, Repr

def SourceFile.extension (source : SourceFile) : Option Text := Path.fileExtension source.path

structure Target where
  name : Text
  kind : TargetKind
  gui : Bool := false
  sources : List SourceFile := []
  directoryDefines : List Text := []
  defines : List Text := []
  compileFlags : List Text := []
  includeDirectories : List Text := []
  linkLibraries : List Text := []
  location : Option Text := none
  /-- Locations for single build types. -/
  locations : TextMap Text := .empty
  buildDirectory : Text
  supportDirectory : Option Text := none
  deriving DecidableEq, Repr

namespace Target

/-- Where the target's output is: the location for the build type, else the general one. -/
def locationFor (target : Target) (buildType : Option Text) : Option Text :=
  (buildType.bind target.locations.get?).or target.location

/-- The directory for files that belong to the target and to no source. -/
def supportPath (target : Target) : Text :=
  match target.supportDirectory with
  | some directory => target.buildDirectory ++ "/" ++ directory
  | none => target.buildDirectory ++ "/CMakeFiles/" ++ target.name ++ ".dir"

end Target

end IdeExport
