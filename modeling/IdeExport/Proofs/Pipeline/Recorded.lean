import IdeExport.Proofs.Pipeline.Prepared
/-!
# Errors that later phases record

Only validation looks at the diagnostics, and it comes first.  Whether a run goes through depends after it on the
failures of the phases alone: an error that a phase records without failing stays in the context of a run that has gone
through, and that is the only way an error gets there (`hasErrors_iff_recorded`).
-/
namespace IdeExport

namespace Phase

/-- A phase that leaves the diagnostics there are and may add some. -/
def Appends (phase : Phase) : Prop := ∀ ctx : Context, ctx.diagnostics <+: (phase.run ctx).1.diagnostics

def recorded (phase : Phase) (ctx : Context) : List Diagnostic :=
  (phase.run ctx).1.diagnostics.drop ctx.diagnostics.length

theorem Appends.diagnostics_run {phase : Phase} (h : phase.Appends) (ctx : Context) :
    (phase.run ctx).1.diagnostics = ctx.diagnostics ++ phase.recorded ctx :=
  List.prefix_iff_eq_append.1 (h ctx) |>.symm

/-- A phase that adds diagnostics and then fails or not. -/
def recording (ds : List Diagnostic) (failure : Option PhaseFailure) : Phase where
  name := "extra"
  description := []
  run ctx := (ctx.addDiagnostics ds, failure)

theorem appends_recording (ds : List Diagnostic) (failure : Option PhaseFailure) : (recording ds failure).Appends :=
  fun ctx => List.prefix_append ctx.diagnostics ds

end Phase

/-! ## Runs -/

/-- The phases of a run, each with the context it is given. -/
def meetings (ctx : Context) : List Phase → List (Context × Phase)
  | [] => []
  | phase :: phases => (ctx, phase) :: meetings (phase.run ctx).1 phases

theorem runPhases_cons (ctx : Context) (phase : Phase) (phases : List Phase) :
    runPhases ctx (phase :: phases) =
      if (phase.run ctx).2 = none then runPhases (phase.run ctx).1 phases else phase.run ctx := by
  rw [runPhases]
  obtain ⟨after, failure⟩ := phase.run ctx
  cases failure <;> rfl

theorem runPhases_eq_none_iff : ∀ (phases : List Phase) (ctx : Context),
    (runPhases ctx phases).2 = none ↔ ∀ m ∈ meetings ctx phases, (m.2.run m.1).2 = none
  | [], ctx => by simp [runPhases, meetings]
  | phase :: phases, ctx => by
    have ih := runPhases_eq_none_iff phases (phase.run ctx).1
    rw [runPhases_cons, meetings, List.forall_mem_cons, ← ih]
    by_cases hphase : (phase.run ctx).2 = none
    · rw [if_pos hphase, and_iff_right hphase]
    · rw [if_neg hphase]
      exact ⟨fun h => absurd h hphase, fun h => absurd h.1 hphase⟩

theorem diagnostics_runPhases : ∀ {phases : List Phase} {ctx : Context}, (∀ phase ∈ phases, phase.Appends) →
    (runPhases ctx phases).2 = none →
      (runPhases ctx phases).1.diagnostics =
        ctx.diagnostics ++ (meetings ctx phases).flatMap (fun m => m.2.recorded m.1)
  | [], ctx, _, _ => by simp [runPhases, meetings]
  | phase :: phases, ctx, hall, h => by
    obtain ⟨hphase, hphases⟩ := List.forall_mem_cons.1 hall
    have hnone : (phase.run ctx).2 = none := (runPhases_eq_none_iff _ ctx).1 h (ctx, phase) (List.mem_cons_self ..)
    rw [runPhases_cons, if_pos hnone] at h ⊢
    rw [diagnostics_runPhases hphases h, hphase.diagnostics_run, meetings, List.flatMap_cons, List.append_assoc]

theorem runPhases_append (others : List Phase) : ∀ (phases : List Phase) (ctx : Context),
    runPhases ctx (phases ++ others) =
      if (runPhases ctx phases).2 = none then runPhases (runPhases ctx phases).1 others else runPhases ctx phases
  | [], _ => rfl
  | phase :: phases, ctx => by
    rw [List.cons_append, runPhases_cons, runPhases_cons, runPhases_append others phases]
    by_cases hphase : (phase.run ctx).2 = none
    · rw [if_pos hphase, if_pos hphase]
    · rw [if_neg hphase, if_neg hphase, if_neg hphase]

/-! ## Pipelines -/

section Pipelines

variable (graph : ProjectGraph) (policy : ExportPolicy) (probe : Text → Bool)

theorem prepare_nil_eq_none_iff : (prepare graph policy probe []).2 = none ↔ graph.Passes := by
  rw [← prepared_ok_iff_passes graph policy probe, prepared]
  obtain ⟨ctx, failure⟩ := prepare graph policy probe []
  cases failure <;> simp

/-- Extra phases come into play for projects that pass. -/
theorem prepare_eq_runPhases (extra : List Phase) : prepare graph policy probe extra =
    if (prepare graph policy probe []).2 = none then runPhases (.passed graph policy probe) extra
    else prepare graph policy probe [] := by
  have hbuiltIn : prepare graph policy probe [] = runPhases { graph, policy, probe } Phase.builtIn := by
    rw [prepare, List.append_nil]
  rw [prepare, runPhases_append, ← hbuiltIn]
  by_cases hnone : (prepare graph policy probe []).2 = none
  · have hpassed : (prepare graph policy probe []).1 = .passed graph policy probe := by
      obtain ⟨ctx, hctx⟩ := (prepared_ok_iff_passes graph policy probe).2 ((prepare_nil_eq_none_iff ..).1 hnone)
      obtain ⟨hsettings, herrors, -⟩ := prepared_eq_ok_iff.1 hctx
      rw [prepare_eq, hsettings]
      simp only [herrors, Bool.false_eq_true, if_false]
    rw [if_pos hnone, if_pos hnone, hpassed]
  · rw [if_neg hnone, if_neg hnone]

theorem prepare_eq_none_iff (extra : List Phase) : (prepare graph policy probe extra).2 = none ↔
    graph.Passes ∧ (runPhases (.passed graph policy probe) extra).2 = none := by
  rw [prepare_eq_runPhases, ← prepare_nil_eq_none_iff graph policy probe]
  by_cases hnone : (prepare graph policy probe []).2 = none
  · rw [if_pos hnone, and_iff_right hnone]
  · rw [if_neg hnone]
    exact ⟨fun h => absurd h hnone, fun h => absurd h.1 hnone⟩

/-- **An error does not stop a run unless validation finds it.**  A run goes through if the project passes and no extra
phase fails.  There are errors in its context exactly if an extra phase has recorded one. -/
theorem hasErrors_iff_recorded {extra : List Phase} (hextra : ∀ phase ∈ extra, phase.Appends) :
    ((prepare graph policy probe extra).2 = none ↔
      graph.Passes ∧ ∀ m ∈ meetings (.passed graph policy probe) extra, (m.2.run m.1).2 = none) ∧
    ((prepare graph policy probe extra).2 = none →
      (Diagnostics.hasErrors (prepare graph policy probe extra).1.diagnostics = true ↔
        ∃ m ∈ meetings (.passed graph policy probe) extra, Diagnostics.hasErrors (m.2.recorded m.1) = true)) := by
  refine ⟨by rw [prepare_eq_none_iff, runPhases_eq_none_iff], fun hnone => ?_⟩
  obtain ⟨hpasses, hruns⟩ := (prepare_eq_none_iff graph policy probe extra).1 hnone
  -- the findings of validation hold no error, so all errors come from the extra phases
  have hfindings : Diagnostics.hasErrors (Context.passed graph policy probe).diagnostics = false :=
    (Validation.hasErrors_findings graph).2 hpasses.names
  have hdiagnostics := diagnostics_runPhases hextra hruns
  rw [prepare_eq_runPhases, if_pos ((prepare_nil_eq_none_iff ..).2 hpasses), hdiagnostics]
  unfold Diagnostics.hasErrors at hfindings ⊢
  rw [List.any_append, hfindings, Bool.false_or, List.any_flatMap, List.any_eq_true]

end Pipelines

def oneProgramGraph : ProjectGraph where
  settings := .complete
  project := {
    name := "demo"
    outputDirectory := "/b"
    targets := [{ name := "app", kind := .executable, buildDirectory := "/b", location := some "/b/app" }] }

def lateError : Diagnostic := ⟨.error, "extra", "found too late", none⟩

theorem not_forall_hasErrors_eq_false : ¬ ∀ (graph : ProjectGraph) (policy : ExportPolicy) (probe : Text → Bool)
    (extra : List Phase), (∀ phase ∈ extra, phase.Appends) → (prepare graph policy probe extra).2 = none →
      Diagnostics.hasErrors (prepare graph policy probe extra).1.diagnostics = false := by
  intro h
  have hfalse := h oneProgramGraph {} (fun _ => false) [.recording [lateError] none]
    (List.forall_mem_singleton.2 (Phase.appends_recording _ _)) (by decide)
  exact absurd hfalse (by decide)

theorem hasErrors_iff_recorded_lateError :
    let extra := [Phase.recording [] none, Phase.recording [lateError] none]
    let run := prepare oneProgramGraph {} (fun _ => false) extra
    (∀ phase ∈ extra, phase.Appends) ∧ run.2 = none ∧ Diagnostics.hasErrors run.1.diagnostics = true := by
  intro extra run
  have hextra : ∀ phase ∈ extra, phase.Appends :=
    List.forall_mem_cons.2 ⟨Phase.appends_recording _ _, List.forall_mem_singleton.2 (Phase.appends_recording _ _)⟩
  have hnone : run.2 = none := by decide
  have hmeeting : ∃ m ∈ meetings (.passed oneProgramGraph {} fun _ => false) extra,
      Diagnostics.hasErrors (m.2.recorded m.1) = true := by
    refine ⟨_, List.mem_cons_of_mem _ (List.mem_cons_self ..), ?_⟩
    decide
  exact ⟨hextra, hnone, ((hasErrors_iff_recorded oneProgramGraph {} (fun _ => false) hextra).2 hnone).2 hmeeting⟩

end IdeExport
