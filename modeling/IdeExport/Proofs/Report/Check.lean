import IdeExport.Proofs.Pipeline.Prepared
import IdeExport.Report.Check
import IdeExport.Snapshot.Validation
import Mathlib.Data.List.Forall2
/-!
# What a check report tells

A check prepares every project and keeps the context of those that pass, but of a project that fails only the failure.
So what validation has recorded about a project is told exactly if the project passes
(`CheckReport.tells_recorded_iff_passes`): what is lost always holds an error, and what is told never does.
-/
namespace IdeExport

/-- What validation records about a project, whether or not the project passes. -/
def recordedByValidation (policy : ExportPolicy) (probe : Text → Bool) (graph : ProjectGraph) : List Diagnostic :=
  (Phase.validate.run { graph, policy, probe }).1.diagnostics

def validationFailure (policy : ExportPolicy) (probe : Text → Bool) (graph : ProjectGraph) : Option PhaseFailure :=
  (Phase.validate.run { graph, policy, probe }).2

section Validated

variable (policy : ExportPolicy) (probe : Text → Bool) (graph : ProjectGraph)

theorem hasErrors_recordedByValidation :
    Diagnostics.hasErrors (recordedByValidation policy probe graph) =
      (validationFailure policy probe graph).isSome := by
  rw [recordedByValidation, validationFailure, validate_run]
  cases Validation.missingSetting? graph.settings with
  | some setting => rfl
  | none =>
    cases Diagnostics.hasErrors (Validation.findings graph) <;> rfl

theorem ProjectCheck.ofGraph_eq : ProjectCheck.ofGraph policy probe graph =
    match validationFailure policy probe graph with
    | none => ⟨graph.name, recordedByValidation policy probe graph, none⟩
    | some failure => ⟨graph.name, [], some failure.message⟩ := by
  rw [ProjectCheck.ofGraph, prepared_eq, recordedByValidation, validationFailure, validate_run]
  cases Validation.missingSetting? graph.settings with
  | some setting => rfl
  | none => cases Diagnostics.hasErrors (Validation.findings graph) <;> rfl

theorem validationFailure_eq_none_iff : validationFailure policy probe graph = none ↔ graph.Passes := by
  rw [← prepared_ok_iff_passes graph policy probe, prepared_eq, validationFailure, validate_run]
  cases Validation.missingSetting? graph.settings with
  | some setting => simp
  | none => cases Diagnostics.hasErrors (Validation.findings graph) <;> simp

end Validated

/-- **A check tells what validation has recorded about a project exactly if the project passes.**  Of a project that
fails it tells the failure alone, although validation has recorded an error. -/
theorem CheckReport.tells_recorded_iff_passes (s : Snapshot) (path : Text) (probe : Text → Bool) :
    List.Forall₂ (fun graph check =>
        check.project = graph.name ∧
        (check.diagnostics = recordedByValidation s.policy probe graph ↔ graph.Passes) ∧
        check.fatal = (validationFailure s.policy probe graph).map PhaseFailure.message ∧
        (graph.Passes ∨
          check.diagnostics = [] ∧ Diagnostics.hasErrors (recordedByValidation s.policy probe graph) = true) ∧
        Diagnostics.hasErrors check.diagnostics = false)
      s.graphs (CheckReport.ofSnapshot path probe s).projects := by
  show List.Forall₂ _ s.graphs (s.graphs.map (ProjectCheck.ofGraph s.policy probe))
  rw [List.forall₂_map_right_iff, List.forall₂_same]
  intro graph _
  have hpasses := validationFailure_eq_none_iff s.policy probe graph
  have herrors := hasErrors_recordedByValidation s.policy probe graph
  rw [ProjectCheck.ofGraph_eq]
  cases hfailure : validationFailure s.policy probe graph with
  | none =>
    rw [hfailure] at hpasses herrors
    exact ⟨rfl, iff_of_true rfl (hpasses.1 rfl), rfl, Or.inl (hpasses.1 rfl), herrors⟩
  | some failure =>
    rw [hfailure] at hpasses herrors
    have hfails : ¬ graph.Passes := fun h => nomatch hpasses.2 h
    have hlost : [] ≠ recordedByValidation s.policy probe graph := fun h => by
      rw [← h] at herrors
      cases herrors
    exact ⟨rfl, iff_of_false hlost hfails, rfl, Or.inr ⟨rfl, herrors⟩, rfl⟩

/-- A snapshot of one project, in which two targets have the same name. -/
def twoApps : Snapshot where
  build := .complete
  projects := [{
    name := "demo"
    outputDirectory := "/b"
    targets := [
      { name := "app", kind := .executable, buildDirectory := "/b", location := some "/b/app" },
      { name := "app", kind := .staticLibrary, buildDirectory := "/b", location := some "/b/libapp.a" }] }]

theorem CheckReport.not_forall_tells_recorded : ¬ ∀ (s : Snapshot) (path : Text) (probe : Text → Bool), s.IsValid →
    List.Forall₂ (fun graph check => check.diagnostics = recordedByValidation s.policy probe graph)
      s.graphs (CheckReport.ofSnapshot path probe s).projects := by
  intro h
  have htells := h twoApps "s.toml" (fun _ => false) (by decide)
  exact absurd (List.forall₂_cons.1 htells).1 (by decide)

end IdeExport
