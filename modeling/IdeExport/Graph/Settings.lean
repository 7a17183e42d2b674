import IdeExport.Graph.Language
/-!
# Build settings

What all projects of one build have in common.
-/
namespace IdeExport

structure BuildSettings where
  homeDirectory : Text
  homeOutputDirectory : Text
  moduleRoot : Option Text := none
  makeProgram : Option Text := none
  configureCommand : Option Text := none
  buildType : Option Text := none
  runtimeOutputDirectory : Option Text := none
  executableOutputPath : Option Text := none
  cCompilerId : Option Text := none
  cxxCompilerId : Option Text := none
  languages : List Language := [.c, .cxx]
  sourceExtensions : List Text := ["c", "C", "c++", "cc", "cpp", "cxx", "m", "M", "mm"]
  headerExtensions : List Text := ["h", "hh", "h++", "hm", "hpp", "hxx", "in", "txx"]
  cSystemIncludes : List Text := []
  cxxSystemIncludes : List Text := []
  cSharedLibraryFlags : List Text := []
  cxxSharedLibraryFlags : List Text := []
  deriving DecidableEq, Repr

namespace BuildSettings

def languageSet (s : BuildSettings) : LanguageSet := .ofList s.languages

def compilerId (s : BuildSettings) : Option Text :=
  match s.languageSet.primary with
  | .cxx => s.cxxCompilerId
  | _ => s.cCompilerId

def sharedLibraryFlags (s : BuildSettings) : List Text :=
  match s.languageSet.primary with
  | .cxx => s.cxxSharedLibraryFlags
  | _ => s.cSharedLibraryFlags

end BuildSettings

end IdeExport
