import IdeExport.Text.Basic
/-!
# Diagnostics

What a check has to say about a project.
-/
namespace IdeExport

inductive Severity
  | error
  | warning
  | info
  deriving DecidableEq, Repr

def Severity.name : Severity → Text
  | .error => "error"
  | .warning => "warning"
  | .info => "info"

structure Diagnostic where
  severity : Severity
  phase : Text
  message : Text
  location : Option Text := none
  deriving DecidableEq, Repr

namespace Diagnostic

def display (d : Diagnostic) : Text :=
  d.severity.name ++ ": " ++ d.message ++
    (match d.location with
     | some location => " (at " ++ location ++ ")"
     | none => [])

def isError (d : Diagnostic) : Bool := d.severity = .error

def isWarning (d : Diagnostic) : Bool := d.severity = .warning

end Diagnostic

namespace Diagnostics

def errors (ds : List Diagnostic) : List Diagnostic := ds.filter (·.isError)

def warnings (ds : List Diagnostic) : List Diagnostic := ds.filter (·.isWarning)

def errorCount (ds : List Diagnostic) : Nat := (errors ds).length

def hasErrors (ds : List Diagnostic) : Bool := ds.any (·.isError)

def hasWarnings (ds : List Diagnostic) : Bool := ds.any (·.isWarning)

theorem hasErrors_iff (ds : List Diagnostic) : hasErrors ds = true ↔ 0 < errorCount ds := by
  simp [hasErrors, errorCount, errors, List.length_pos_iff_exists_mem]

end Diagnostics

end IdeExport
