import IdeExport.Data.Value
import IdeExport.Path.Native
/-!
# Formats of data files

The two formats of data files, how the name of a file tells its format, and the points in which records are not
read alike from both.
-/
namespace IdeExport

inductive Format
  | toml
  | json
  deriving DecidableEq, Repr

namespace Format

def name : Format → Text
  | toml => "toml"
  | json => "json"

/-- The format of a file with some extension; a file without one is TOML.  The error is an extension that stands
for no format. -/
def ofPath (path : Text) : Except Text Format :=
  match Path.extension path with
  | none => .ok toml
  | some e => if e = toml.name then .ok toml else if e = json.name then .ok json else .error e

/-- Whether a value says that there is nothing.  TOML has no null; an empty array or table stands for it. -/
def isNothing : Format → Value → Bool
  | json, .null => true
  | toml, .array [] => true
  | toml, .object [] => true
  | _, _ => false

/-- Whether an array that stands for a record may go on after the last field.  Nobody looks at what follows. -/
def allowsRest : Format → Bool
  | toml => true
  | json => false

end Format
end IdeExport
