import IdeExport.Snapshot.Basic
/-!
# Valid snapshots

What can be wrong with a snapshot that has been read.  The violations are listed in the order in which a
snapshot is gone through: the settings and the policy first, then each project with its targets, and after
each project whether its name has come before.  The first one is reported.
-/
namespace IdeExport
namespace Snapshot

inductive Violation
  | noHomeDirectory
  | noHomeOutputDirectory
  | badExtension (extension : Text)
  | unnamedProject
  | separatorInName (project : Text)
  | noOutputDirectory (project : Text)
  | unnamedTarget (project : Text)
  | noBuildDirectory (target : Text)
  | duplicateProject (project : Text)
  deriving DecidableEq, Repr

namespace Violation

def message : Violation → Text
  | noHomeDirectory => "build.home_directory must not be empty"
  | noHomeOutputDirectory => "build.home_output_directory must not be empty"
  | badExtension extension => "export.extension '" ++ extension ++ "' is not a valid file extension"
  | unnamedProject => "project name must not be empty"
  | separatorInName project =>
    "project name '" ++ project ++ "' is used as a file name and must not contain path separators"
  | noOutputDirectory project => "project '" ++ project ++ "' has no output_directory"
  | unnamedTarget project => "project '" ++ project ++ "' has a target without a name"
  | noBuildDirectory target => "target '" ++ target ++ "' has no build_directory"
  | duplicateProject project => "duplicate project '" ++ project ++ "'"

/-- The name that the text is searched for, if the violation has one place there. -/
def subject : Violation → Option Text
  | unnamedProject | unnamedTarget _ => some []
  | separatorInName name | noOutputDirectory name | noBuildDirectory name => some name
  | noHomeDirectory | noHomeOutputDirectory | badExtension _ | duplicateProject _ => none

end Violation

/-! ## The checks -/

def violationIf (bad : Bool) (v : Violation) : List Violation := if bad then [v] else []

def settingsViolations (build : BuildSettings) : List Violation :=
  violationIf build.homeDirectory.isEmpty .noHomeDirectory ++
  violationIf build.homeOutputDirectory.isEmpty .noHomeOutputDirectory

/-- Whether a text can be the extension of a file in any directory. -/
def isFileExtension (extension : Text) : Bool := !extension.isEmpty && !extension.contains '/'

def policyViolations (policy : ExportPolicy) : List Violation :=
  violationIf (!isFileExtension policy.extension) (.badExtension policy.extension)

/-- Whether a name has a character that separates directories on some system. -/
def hasSeparator (name : Text) : Bool := name.contains '/' || name.contains '\\'

def targetViolations (project : Text) (target : Target) : List Violation :=
  violationIf target.name.isEmpty (.unnamedTarget project) ++
  violationIf target.buildDirectory.isEmpty (.noBuildDirectory target.name)

def projectViolations (project : Project) : List Violation :=
  violationIf project.name.isEmpty .unnamedProject ++
  violationIf (hasSeparator project.name) (.separatorInName project.name) ++
  violationIf project.outputDirectory.isEmpty (.noOutputDirectory project.name) ++
  project.targets.flatMap (targetViolations project.name)

/-- The violations of projects that come after projects with the names `seen`. -/
def projectsViolations (seen : List Text) : List Project → List Violation
  | [] => []
  | project :: projects =>
    projectViolations project ++
    violationIf (seen.contains project.name) (.duplicateProject project.name) ++
    projectsViolations (project.name :: seen) projects

def violations (s : Snapshot) : List Violation :=
  settingsViolations s.build ++ policyViolations s.policy ++ projectsViolations [] s.projects

def IsValid (s : Snapshot) : Prop := s.violations = []

instance (s : Snapshot) : Decidable s.IsValid := inferInstanceAs (Decidable (_ = _))

end Snapshot
end IdeExport
