import IdeExport.Pipeline.Basic
/-!
# Validation

The checks that come before everything else.  A project without one of the required settings is not looked at
any further.  Of the findings on its targets only a repeated name is an error.
-/
namespace IdeExport
namespace Validation

def phaseName : Text := "validate"

/-! ## Findings -/

def settingNotSet (setting : RequiredSetting) : Diagnostic :=
  ⟨.error, phaseName, "required setting '" ++ setting.name ++ "' is not set", some ("build." ++ setting.name)⟩

def noTargets (project : Text) : Diagnostic :=
  ⟨.warning, phaseName, "project '" ++ project ++ "' has no targets", none⟩

def duplicateTarget (project target : Text) : Diagnostic :=
  ⟨.error, phaseName, "duplicate target '" ++ target ++ "'", some ("projects." ++ project ++ ".targets")⟩

def noLocation (target : Text) : Diagnostic :=
  ⟨.warning, phaseName, "target has no output location", some ("targets." ++ target)⟩

def externalLibrary (target item : Text) : Diagnostic :=
  ⟨.info, phaseName, "'" ++ item ++ "' is not a target, linking it as an external library",
    some ("targets." ++ target)⟩

/-- Whether a target should have a location and has none.  An object library needs none. -/
def lacksLocation (graph : ProjectGraph) (target : Target) : Bool :=
  target.kind.isBuildable && target.kind ≠ .objectLibrary && (target.locationFor graph.buildType).isNone

/-- The link items of a target that are no targets. -/
def externalItems (graph : ProjectGraph) (target : Target) : List Text :=
  target.linkLibraries.filter (fun item => (graph.findTarget item).isNone)

/-- The findings on a target that comes after targets with the names `seen`. -/
def targetFindings (graph : ProjectGraph) (seen : List Text) (target : Target) : List Diagnostic :=
  (if seen.contains target.name then [duplicateTarget graph.name target.name] else []) ++
  (if lacksLocation graph target then [noLocation target.name] else []) ++
  (externalItems graph target).map (externalLibrary target.name)

def targetsFindings (graph : ProjectGraph) (seen : List Text) : List Target → List Diagnostic
  | [] => []
  | target :: targets =>
    targetFindings graph seen target ++ targetsFindings graph (target.name :: seen) targets

/-- Everything there is to say about a project that has the required settings. -/
def findings (graph : ProjectGraph) : List Diagnostic :=
  (if graph.targets.isEmpty then [noTargets graph.name] else []) ++ targetsFindings graph [] graph.targets

/-! ## The phase -/

def missingSetting? (settings : BuildSettings) : Option RequiredSetting :=
  [RequiredSetting.makeProgram, .configureCommand].find? (·.isMissing settings)

def run (ctx : Context) : Context × Option PhaseFailure :=
  match missingSetting? ctx.graph.settings with
  | some setting =>
    (ctx.addDiagnostics [settingNotSet setting], some (.missingSetting ctx.graph.name setting))
  | none =>
    let ctx := ctx.addDiagnostics (findings ctx.graph)
    if Diagnostics.hasErrors ctx.diagnostics then
      (ctx, some (.invalid ctx.graph.name (Diagnostics.errorCount ctx.diagnostics)))
    else (ctx, none)

end Validation
end IdeExport
