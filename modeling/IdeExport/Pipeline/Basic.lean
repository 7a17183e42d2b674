import IdeExport.Diagnostic
import IdeExport.ListFiles
import IdeExport.Sources
import IdeExport.TargetSettings
import IdeExport.Graph.Policy
/-!
# Pipelines

A project is prepared for its descriptor in phases.  A phase adds diagnostics and artifacts to a context, or it
fails; the first failure ends the run.
-/
namespace IdeExport

/-! ## Failures -/

inductive RequiredSetting
  | makeProgram
  | configureCommand
  deriving DecidableEq, Repr

namespace RequiredSetting

def name : RequiredSetting → Text
  | makeProgram => "make_program"
  | configureCommand => "configure_command"

def value (settings : BuildSettings) : RequiredSetting → Option Text
  | makeProgram => settings.makeProgram
  | configureCommand => settings.configureCommand

/-- Whether a build leaves the setting out or empty. -/
def isMissing (settings : BuildSettings) (setting : RequiredSetting) : Bool :=
  (setting.value settings).all List.isEmpty

end RequiredSetting

inductive PhaseFailure
  | missingSetting (project : Text) (setting : RequiredSetting)
  | invalid (project : Text) (errorCount : Nat)
  | stated (message : Text)
  deriving DecidableEq, Repr

def PhaseFailure.message : PhaseFailure → Text
  | .missingSetting project setting =>
    "project '" ++ project ++ "' is missing the required setting '" ++ setting.name ++ "'"
  | .invalid project errorCount =>
    "project '" ++ project ++ "' failed validation with " ++ Text.ofNat errorCount ++ " error(s)"
  | .stated message => message

/-! ## Contexts -/

structure Artifacts where
  folders : Folder := .empty
  sources : Sources := {}
  /-- The settings of the buildable targets by name, in the order of the targets. -/
  settings : List (Text × TargetSettings) := []
  deriving Repr

/-- The value of a name, at the place the name has already or else at the end. -/
def setNamed {α : Type} (name : Text) (value : α) : List (Text × α) → List (Text × α)
  | [] => [(name, value)]
  | (n, v) :: rest => if n = name then (n, value) :: rest else (n, v) :: setNamed name value rest

theorem lookup_setNamed {α : Type} (name other : Text) (value : α) : ∀ entries : List (Text × α),
    (setNamed name value entries).lookup other = if other = name then some value else entries.lookup other
  | [] => by
    by_cases h : other = name
    · simp [setNamed, h]
    · have hne : (other == name) = false := by simpa using h
      simp [setNamed, List.lookup_cons, h, hne]
  | (n, v) :: rest => by
    unfold setNamed
    split
    · rename_i hn
      subst hn
      by_cases h : other = n
      · simp [h]
      · have hne : (other == n) = false := by simpa using h
        simp [List.lookup_cons, h, hne]
    · rename_i hn
      rw [List.lookup_cons, List.lookup_cons, lookup_setNamed name other value rest]
      by_cases h : other = n
      · subst h
        simp [hn]
      · have hne : (other == n) = false := by simpa using h
        simp [hne]

structure Context where
  graph : ProjectGraph
  policy : ExportPolicy := {}
  /-- Whether a path names a file. -/
  probe : Text → Bool := fun _ => false
  artifacts : Artifacts := {}
  diagnostics : List Diagnostic := []

def Context.addDiagnostics (ctx : Context) (ds : List Diagnostic) : Context :=
  { ctx with diagnostics := ctx.diagnostics ++ ds }

/-! ## Phases and pipelines -/

structure Phase where
  name : Text
  description : Text
  /-- The context after the phase, and why it failed if it did. -/
  run : Context → Context × Option PhaseFailure

def runPhases (ctx : Context) : List Phase → Context × Option PhaseFailure
  | [] => (ctx, none)
  | phase :: phases =>
    match phase.run ctx with
    | (ctx, none) => runPhases ctx phases
    | (ctx, some failure) => (ctx, some failure)

end IdeExport
