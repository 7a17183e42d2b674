import IdeExport.CommandLine.Command
import IdeExport.Proofs.Export.DryRun
import IdeExport.Report.Check
/-!
# The verdict on a snapshot

A check prepares every project of a snapshot and an export does it again, with a policy and a probe of its own.  Both
come down to the same condition on the projects, `ProjectGraph.Passes`, in which neither the policy nor the probe
occurs.  So what a check approves of is what can be exported (`isValid_iff_exported`).
-/
namespace IdeExport

/-! ## Checking -/

theorem ProjectCheck.isValid_ofGraph (policy : ExportPolicy) (probe : Text → Bool) (graph : ProjectGraph) :
    (ProjectCheck.ofGraph policy probe graph).isValid = true ↔ graph.Passes := by
  rw [← prepared_ok_iff_passes graph policy probe]
  unfold ProjectCheck.ofGraph
  cases hprepared : prepared graph policy probe with
  | error failure => simp [ProjectCheck.isValid]
  | ok ctx =>
    -- a project that passes has no errors among its findings, so there is nothing left to object to
    obtain ⟨-, herrors, rfl⟩ := prepared_eq_ok_iff.1 hprepared
    have hdiagnostics : Diagnostics.hasErrors (Context.passed graph policy probe).diagnostics = false := herrors
    simp [ProjectCheck.isValid, hdiagnostics]

theorem CheckReport.isValid_ofSnapshot (path : Text) (probe : Text → Bool) (s : Snapshot) :
    (CheckReport.ofSnapshot path probe s).isValid = true ↔ ∀ graph ∈ s.graphs, graph.Passes := by
  unfold CheckReport.isValid CheckReport.ofSnapshot
  rw [List.all_map, List.all_eq_true]
  exact forall₂_congr fun graph _ => ProjectCheck.isValid_ofGraph s.policy probe graph

/-! ## Exporting -/

theorem prepareProject_ok_iff_passes (policy : ExportPolicy) (probe : Text → Bool) (graph : ProjectGraph) :
    (∃ p, prepareProject policy probe graph = .ok p) ↔ graph.Passes := by
  rw [← prepared_ok_iff_passes graph policy probe]
  unfold prepareProject
  cases prepared graph policy probe <;> simp

theorem prepareProjects_ok_iff_passes (policy : ExportPolicy) (probe : Text → Bool) : ∀ graphs : List ProjectGraph,
    (∃ ps, prepareProjects policy probe graphs = .ok ps) ↔ ∀ graph ∈ graphs, graph.Passes
  | [] => by simp [prepareProjects]
  | graph :: graphs => by
    rw [List.forall_mem_cons, ← prepareProject_ok_iff_passes policy probe graph,
      ← prepareProjects_ok_iff_passes policy probe graphs]
    simp only [prepareProjects_cons]
    constructor
    · rintro ⟨-, p, ps, hp, hps, -⟩
      exact ⟨⟨p, hp⟩, ⟨ps, hps⟩⟩
    · rintro ⟨⟨p, hp⟩, ⟨ps, hps⟩⟩
      exact ⟨p :: ps, p, ps, hp, hps, rfl⟩

theorem Exporter.run_ok_iff_passes (exporter : Exporter) (tree : FileTree) (graphs : List ProjectGraph) :
    (∃ outcomes, (exporter.run tree graphs).1 = .ok outcomes) ↔ ∀ graph ∈ graphs, graph.Passes := by
  rw [← prepareProjects_ok_iff_passes exporter.policy (exporter.probe tree) graphs]
  cases hprepared : prepareProjects exporter.policy (exporter.probe tree) graphs with
  | error failure => simp [exporter.run_of_failed hprepared]
  | ok ps => simp [exporter.run_of_prepared hprepared]

/-- **A snapshot passes its check exactly if its projects can be exported**, and both exactly if each of its projects
passes: whatever the command line makes of the policy, whatever the two probes answer, and whether or not the export
is a dry run. -/
theorem CheckReport.isValid_iff_exported (s : Snapshot) (path : Text) (checkProbe : Text → Bool)
    (overrides : CommandLine.PolicyOverrides) (exportProbe : FileTree → Text → Bool) (dry : Bool) (tree : FileTree) :
    ((CheckReport.ofSnapshot path checkProbe s).isValid = true ↔
      ∃ outcomes, (Exporter.run { policy := overrides.apply s.policy, probe := exportProbe, dry } tree s.graphs).1 =
        .ok outcomes) ∧
    ((CheckReport.ofSnapshot path checkProbe s).isValid = true ↔ ∀ graph ∈ s.graphs, graph.Passes) := by
  have hcheck := CheckReport.isValid_ofSnapshot path checkProbe s
  have hexport := Exporter.run_ok_iff_passes { policy := overrides.apply s.policy, probe := exportProbe, dry }
    tree s.graphs
  exact ⟨hcheck.trans hexport.symm, hcheck⟩

end IdeExport
