import IdeExport.FileTree
import IdeExport.Json.Reader
import IdeExport.Snapshot.Records
import IdeExport.Snapshot.Span
import IdeExport.Snapshot.Validation
import IdeExport.Toml.Reader
/-!
# Reading snapshots

From the text of a file to a valid snapshot, and everything that can go wrong on the way.
-/
namespace IdeExport

def Format.parse? (format : Format) (source : Text) : Option Value :=
  match format with
  | .toml => Toml.parse? source
  | .json => Json.parse? source

namespace Snapshot

/-! ## Errors -/

structure Label where
  span : Span
  text : Text
  deriving DecidableEq, Repr

inductive Error
  | unreadable (path : Text)
  | unsupportedFormat (extension : Text)
  /-- The text is not of its format, or it is not a snapshot. -/
  | malformed (format : Format)
  /-- Two projects have one name, and the text shows both. -/
  | duplicateProject (name : Text) (first second : Span)
  | invalid (violation : Violation) (span : Option Span)
  deriving DecidableEq, Repr

namespace Error

def message : Error → Text
  | unreadable path => "failed to read '" ++ path ++ "'"
  | unsupportedFormat extension => "unsupported snapshot format '" ++ extension ++ "'"
  | malformed _ => "failed to parse snapshot"
  | duplicateProject name _ _ => (Violation.duplicateProject name).message
  | invalid violation _ => violation.message

def code : Error → Option Text
  | unreadable _ => none
  | unsupportedFormat _ => some "cbexport::format"
  | malformed _ => some "cbexport::parse_error"
  | duplicateProject _ _ _ => some "cbexport::duplicate_project"
  | invalid _ _ => some "cbexport::validation_error"

def help : Error → Option Text
  | unreadable _ => some "write the build graph snapshot first, or pass its path with --snapshot"
  | unsupportedFormat _ => some "use a .toml or .json snapshot"
  | duplicateProject name _ _ =>
    some ("every project writes '<name>.cbp'; give '" ++ name ++ "' a unique name")
  | malformed _ | invalid _ _ => none

def labels : Error → List Label
  | duplicateProject _ first second => [⟨first, "first declared here"⟩, ⟨second, "declared again here"⟩]
  | invalid violation (some span) => [⟨span, violation.message⟩]
  | unreadable _ | unsupportedFormat _ | malformed _ | invalid _ none => []

def ofViolation (source : Text) (v : Violation) : Error :=
  match v with
  | .duplicateProject name =>
    match Span.allOfName source name with
    | first :: second :: _ => duplicateProject name first second
    | _ => invalid v none
  | _ => invalid v (v.subject.bind (Span.ofName? source))

end Error

/-! ## Texts and files -/

def validate (source : Text) (s : Snapshot) : Except Error Unit :=
  match s.violations with
  | [] => .ok ()
  | v :: _ => .error (.ofViolation source v)

def parse (format : Format) (source : Text) : Except Error Snapshot :=
  match (format.parse? source).bind (codec.decode? format) with
  | none => .error (.malformed format)
  | some s =>
    match validate source s with
    | .error e => .error e
    | .ok () => .ok s

/-- The snapshot in a file.  `read?` gives the content of a file that can be read. -/
def openFile (read? : Text → Option Text) (path : Text) : Except Error Snapshot :=
  match Format.ofPath path with
  | .error extension => .error (.unsupportedFormat extension)
  | .ok format =>
    match read? path with
    | none => .error (.unreadable path)
    | some source => parse format source

end Snapshot
end IdeExport
