import IdeExport.Text.Blank
/-!
# Build commands

The command line that makes the development environment build a project by itself.
-/
namespace IdeExport

inductive Host
  | windows
  | unix
  deriving DecidableEq, Repr

namespace Host

def name : Host → Text
  | windows => "windows"
  | unix => "unix"

def current : Host := unix

def names : List (Text × Host) := [("windows", windows), ("win", windows), ("unix", unix), ("linux", unix), ("macos", unix)]

/-- The host that a user names.  Case does not matter for the letters of these names. -/
def parse (text : Text) : Except Text Host :=
  let lowered := Text.lowerAscii text
  match names.lookup lowered with
  | some host => .ok host
  | none => .error ("unknown host '" ++ lowered ++ "' (expected windows or unix)")

/-- The options that keep the environment from talking to other instances and to the desktop. -/
def quietOptions : Host → List Text
  | windows => ["--no-check-associations", "--no-dde"]
  | unix => ["--no-ipc"]

end Host

namespace BuildCommand

inductive Error
  | emptyProgram
  deriving DecidableEq, Repr

def Error.message : Error → Text
  | .emptyProgram => "the IDE program must not be empty"

def targetOptions (target : Option Text) : List Text :=
  match target with
  | none => []
  | some name =>
    if name.isEmpty then []
    else if name = "clean" then ["--clean"]
    else ["--build", "--target=" ++ name]

def arguments (program project : Text) (target : Option Text) (extra : List Text) (host : Host) :
    Except Error (List Text) :=
  if (Text.trim program).isEmpty then .error .emptyProgram
  else .ok ([program, "--no-splash-screen"] ++ host.quietOptions ++ targetOptions target ++ extra ++ [project ++ ".cbp"])

end BuildCommand
end IdeExport
