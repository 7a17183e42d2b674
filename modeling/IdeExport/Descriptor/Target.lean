import IdeExport.Graph.Project
/-!
# How descriptors see targets

The codes and tokens of the descriptor format, which targets get a block, and the file that stands for the
output of an object library.
-/
namespace IdeExport

def compilerTokens : List (Text × Text) :=
  [("MSVC", "msvc8"), ("Borland", "bcc"), ("SDCC", "sdcc"), ("Intel", "icc"), ("Watcom", "ow")]

/-- The token of a compiler; `gcc` stands for every compiler without one of its own. -/
def compilerToken (compilerId : Option Text) : Text := (compilerId.bind (compilerTokens.lookup ·)).getD "gcc"

/-- The dashboard targets.  Their parts, whose names begin with theirs, are not listed. -/
def dashboardNames : List Text := ["Nightly", "Continuous", "Experimental"]

def isListedUtility (name : Text) : Bool :=
  !dashboardNames.any (fun dashboard => dashboard.isPrefixOf name && name ≠ dashboard)

namespace Target

def typeCode (target : Target) : Nat :=
  match target.kind with
  | .executable => if target.gui then 0 else 1
  | .staticLibrary | .objectLibrary => 2
  | .sharedLibrary | .moduleLibrary => 3
  | .utility | .other => 4

def isListed (target : Target) : Bool :=
  match target.kind with
  | .utility => isListedUtility target.name
  | kind => kind.isBuildable

end Target

/-- A file that is written where a descriptor needs the output of an object library, which has none. -/
structure ObjectMarker where
  target : Text
  path : Text
  deriving DecidableEq, Repr

namespace ObjectMarker

def ofTarget (target : Target) : ObjectMarker :=
  ⟨target.name, target.supportPath ++ "/" ++ target.name ++ ".objlib"⟩

def content (marker : ObjectMarker) : Text :=
  "# This is a dummy file for the OBJECT library " ++ marker.target ++
    " for the CMake CodeBlocks project generator.\n" ++
  "# Don't edit, this file will be overwritten.\n"

end ObjectMarker

end IdeExport
