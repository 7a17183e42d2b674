import IdeExport.Pipeline.Validation
/-!
# The phases of an export

Validation, virtual folders, sources and target settings, in this order; other phases may follow.
-/
namespace IdeExport
namespace Phase

def validate : Phase where
  name := Validation.phaseName
  description := "Check required settings and target integrity"
  run := Validation.run

def folders : Phase where
  name := "folders"
  description := "Build the virtual folder tree of build-configuration files"
  run ctx :=
    let tree := ListFiles.folders ctx.graph.settings ctx.policy.rootListFiles ctx.graph.project.listFiles
    ({ ctx with artifacts := { ctx.artifacts with folders := tree } }, none)

def classify : Phase where
  name := "classify"
  description := "Split sources into implementation and other files"
  run ctx :=
    let settings := ctx.graph.settings
    let sources := (Sources.classify settings.sourceExtensions ctx.graph.targets).discoverHeaders
      settings.headerExtensions ctx.probe
    ({ ctx with artifacts := { ctx.artifacts with sources := sources } }, none)

def addSettings (graph : ProjectGraph) (targets : List Target) (settings : List (Text × TargetSettings)) :
    List (Text × TargetSettings) :=
  targets.foldl (fun settings target => setNamed target.name (.ofTarget graph target) settings) settings

def aggregate : Phase where
  name := "aggregate"
  description := "Deduplicate defines, flags, include directories and link entries"
  run ctx :=
    let targets := ctx.graph.targets.filter (·.kind.isBuildable)
    let settings := addSettings ctx.graph targets ctx.artifacts.settings
    ({ ctx with artifacts := { ctx.artifacts with settings := settings } }, none)

def builtIn : List Phase := [validate, folders, classify, aggregate]

end Phase

/-- Prepare a project for its descriptor.  `extra` phases run after the built-in ones. -/
def prepare (graph : ProjectGraph) (policy : ExportPolicy) (probe : Text → Bool) (extra : List Phase) :
    Context × Option PhaseFailure :=
  runPhases { graph, policy, probe } (Phase.builtIn ++ extra)

def prepared (graph : ProjectGraph) (policy : ExportPolicy) (probe : Text → Bool) : Except PhaseFailure Context :=
  match prepare graph policy probe [] with
  | (ctx, none) => .ok ctx
  | (_, some failure) => .error failure

end IdeExport
