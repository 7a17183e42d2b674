import IdeExport.Pipeline.Phases
import IdeExport.Proofs.Pipeline.Findings
/-!
# Prepared projects

What the built-in phases make of a project, without going through them one by one (`prepare_eq`): a project fails
only by its validation, and of one that passes the artifacts are a function of the graph, the policy and the probe.
Which projects fail, and why, can be read off their settings and the names of their targets (`verdict_prepare`).
A project passes if its build has the required settings and its targets have different names
(`prepared_ok_iff_passes`).
-/
namespace IdeExport

/-! ## The phases together -/

def Artifacts.ofGraph (graph : ProjectGraph) (policy : ExportPolicy) (probe : Text → Bool) : Artifacts where
  folders := ListFiles.folders graph.settings policy.rootListFiles graph.project.listFiles
  sources := (Sources.classify graph.settings.sourceExtensions graph.targets).discoverHeaders
    graph.settings.headerExtensions probe
  settings := Phase.addSettings graph (graph.targets.filter (·.kind.isBuildable)) []

def Context.passed (graph : ProjectGraph) (policy : ExportPolicy) (probe : Text → Bool) : Context where
  graph := graph
  policy := policy
  probe := probe
  artifacts := .ofGraph graph policy probe
  diagnostics := Validation.findings graph

/-- What validation says about a project, and why it gives it up if it does. -/
theorem validate_run (graph : ProjectGraph) (policy : ExportPolicy) (probe : Text → Bool) :
    Phase.validate.run { graph, policy, probe } =
      match Validation.missingSetting? graph.settings with
      | some setting =>
        ({ graph, policy, probe, diagnostics := [Validation.settingNotSet setting] },
          some (.missingSetting graph.name setting))
      | none =>
        ({ graph, policy, probe, diagnostics := Validation.findings graph },
          if Diagnostics.hasErrors (Validation.findings graph) then
            some (.invalid graph.name (Diagnostics.errorCount (Validation.findings graph)))
          else none) := by
  show Validation.run _ = _
  unfold Validation.run
  cases Validation.missingSetting? graph.settings with
  | some setting => rfl
  | none =>
    show (if Diagnostics.hasErrors ([] ++ Validation.findings graph) then _ else _) = _
    rw [List.nil_append]
    split <;> rfl

/-- The phases after validation never fail. -/
theorem runPhases_after_validate (graph : ProjectGraph) (policy : ExportPolicy) (probe : Text → Bool) :
    runPhases { graph, policy, probe, diagnostics := Validation.findings graph }
      [.folders, .classify, .aggregate] = (.passed graph policy probe, none) := rfl

/-- **The outcome of the built-in phases is that of validation.** -/
theorem prepare_eq (graph : ProjectGraph) (policy : ExportPolicy) (probe : Text → Bool) :
    prepare graph policy probe [] =
      match Validation.missingSetting? graph.settings with
      | some setting =>
        ({ graph, policy, probe, diagnostics := [Validation.settingNotSet setting] },
          some (.missingSetting graph.name setting))
      | none =>
        if Diagnostics.hasErrors (Validation.findings graph) then
          ({ graph, policy, probe, diagnostics := Validation.findings graph },
            some (.invalid graph.name (Diagnostics.errorCount (Validation.findings graph))))
        else (.passed graph policy probe, none) := by
  unfold prepare
  rw [List.append_nil, Phase.builtIn, runPhases, validate_run]
  cases Validation.missingSetting? graph.settings with
  | some setting => rfl
  | none =>
    by_cases herrors : Diagnostics.hasErrors (Validation.findings graph) = true
    · simp only [if_pos herrors]
    · simp only [if_neg herrors, runPhases_after_validate]

theorem prepared_eq (graph : ProjectGraph) (policy : ExportPolicy) (probe : Text → Bool) :
    prepared graph policy probe =
      match Validation.missingSetting? graph.settings with
      | some setting => .error (.missingSetting graph.name setting)
      | none =>
        if Diagnostics.hasErrors (Validation.findings graph) then
          .error (.invalid graph.name (Diagnostics.errorCount (Validation.findings graph)))
        else .ok (.passed graph policy probe) := by
  unfold prepared
  rw [prepare_eq]
  cases Validation.missingSetting? graph.settings with
  | some setting => rfl
  | none =>
    by_cases herrors : Diagnostics.hasErrors (Validation.findings graph) = true
    · simp only [if_pos herrors]
    · simp only [if_neg herrors]

theorem prepared_eq_ok_iff {graph : ProjectGraph} {policy : ExportPolicy} {probe : Text → Bool} {ctx : Context} :
    prepared graph policy probe = .ok ctx ↔
      Validation.missingSetting? graph.settings = none ∧ Diagnostics.hasErrors (Validation.findings graph) = false ∧
        ctx = .passed graph policy probe := by
  rw [prepared_eq]
  cases Validation.missingSetting? graph.settings with
  | some setting => simp
  | none =>
    cases Diagnostics.hasErrors (Validation.findings graph) with
    | true => simp
    | false => simp [eq_comm]

def BuildSettings.complete : BuildSettings where
  homeDirectory := "/s"
  homeOutputDirectory := "/b"
  makeProgram := some "make"
  configureCommand := some "cmake"

/-- What came of a run of the phases: why it failed, if it did, and what was said about the project. -/
def verdict (run : Context × Option PhaseFailure) : Option PhaseFailure × List Diagnostic := (run.2, run.1.diagnostics)

/-- **Only the settings and the findings decide how a project fares**, not the policy and not the probe. -/
theorem verdict_prepare_congr {graph other : ProjectGraph} (hsettings : graph.settings = other.settings)
    (hname : graph.name = other.name) (hfindings : Validation.findings graph = Validation.findings other)
    (policy otherPolicy : ExportPolicy) (probe otherProbe : Text → Bool) :
    verdict (prepare graph policy probe []) = verdict (prepare other otherPolicy otherProbe []) := by
  rw [prepare_eq, prepare_eq, hsettings, hname, hfindings]
  cases Validation.missingSetting? other.settings with
  | some setting => rfl
  | none =>
    by_cases herrors : Diagnostics.hasErrors (Validation.findings other) = true
    · simp only [if_pos herrors]
      rfl
    · simp only [if_neg herrors, verdict, Context.passed, hfindings]

/-- What a project needs to pass.  Neither the policy nor the probe has a say in it. -/
structure ProjectGraph.Passes (graph : ProjectGraph) : Prop where
  settings : ∀ setting : RequiredSetting, setting.isMissing graph.settings = false
  names : (graph.targets.map (·.name)).Nodup

/-- **A project can be prepared exactly if it passes.** -/
theorem prepared_ok_iff_passes (graph : ProjectGraph) (policy : ExportPolicy) (probe : Text → Bool) :
    (∃ ctx, prepared graph policy probe = .ok ctx) ↔ graph.Passes := by
  simp only [prepared_eq_ok_iff, Validation.missingSetting?_eq_none_iff, Validation.hasErrors_findings]
  constructor
  · rintro ⟨-, hsettings, hnames, -⟩
    exact ⟨hsettings, hnames⟩
  · rintro ⟨hsettings, hnames⟩
    exact ⟨_, hsettings, hnames, rfl⟩

theorem nodup_names_of_prepared {graph : ProjectGraph} {policy : ExportPolicy} {probe : Text → Bool} {ctx : Context}
    (h : prepared graph policy probe = .ok ctx) : (graph.targets.map (·.name)).Nodup :=
  ((prepared_ok_iff_passes graph policy probe).1 ⟨ctx, h⟩).names

end IdeExport
