import IdeExport.Data.Value
import IdeExport.Pipeline.Phases
import IdeExport.Report.Basic
import IdeExport.Snapshot.Basic
/-!
# Check reports

What preparing the projects of a snapshot finds out about them, without writing anything.
-/
namespace IdeExport

/-! ## Checked projects -/

structure ProjectCheck where
  project : Text
  diagnostics : List Diagnostic := []
  fatal : Option Text := none
  deriving DecidableEq, Repr

namespace ProjectCheck

/-- Check a project by preparing it.  A project that fails is reported by its failure alone. -/
def ofGraph (policy : ExportPolicy) (probe : Text → Bool) (graph : ProjectGraph) : ProjectCheck :=
  match prepared graph policy probe with
  | .ok ctx => { project := graph.name, diagnostics := ctx.diagnostics }
  | .error failure => { project := graph.name, fatal := some failure.message }

def isValid (check : ProjectCheck) : Bool := check.fatal.isNone && !Diagnostics.hasErrors check.diagnostics

def describe (project : Text) (d : Diagnostic) : Text :=
  project ++ ": " ++ d.message ++
    (match d.location with
     | some location => "\n  --> " ++ location
     | none => [])

def diagnosticItem (project : Text) (d : Diagnostic) : ReportItem :=
  match d.severity with
  | .error => .error (describe project d)
  | .warning => .warning (describe project d)
  | .info => .preformatted ("info: " ++ describe project d)

def items (check : ProjectCheck) : Report :=
  check.diagnostics.map (diagnosticItem check.project) ++ check.fatal.toList.map .error

def diagnosticValue (d : Diagnostic) : Value :=
  .object [("severity", .text d.severity.name), ("phase", .text d.phase), ("message", .text d.message),
    ("location", (d.location.map Value.text).getD .null)]

def toValue (check : ProjectCheck) : Value :=
  .object [("project", .text check.project), ("diagnostics", .array (check.diagnostics.map diagnosticValue)),
    ("fatal", (check.fatal.map Value.text).getD .null)]

end ProjectCheck

/-! ## Reports -/

structure CheckReport where
  snapshot : Text
  projects : List ProjectCheck
  deriving DecidableEq, Repr

namespace CheckReport

def ofSnapshot (path : Text) (probe : Text → Bool) (s : Snapshot) : CheckReport :=
  ⟨path, s.graphs.map (ProjectCheck.ofGraph s.policy probe)⟩

def isValid (report : CheckReport) : Bool := report.projects.all (·.isValid)

/-- The report for a user.  A blank line sets off the verdict from the findings. -/
def items (report : CheckReport) : Report :=
  let findings := report.projects.flatMap ProjectCheck.items
  findings ++ (if findings.isEmpty then [] else [.blank]) ++
    (if report.isValid then [.preformatted ("✓ " ++ report.snapshot ++ " is valid")] else [])

def toValue (report : CheckReport) : Value :=
  .object [("snapshot", .text report.snapshot), ("projects", .array (report.projects.map ProjectCheck.toValue))]

end CheckReport
end IdeExport
