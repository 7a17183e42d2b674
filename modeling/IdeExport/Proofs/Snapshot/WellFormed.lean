import IdeExport.Snapshot.Reading
/-!
# Well-formed snapshots

A snapshot is valid if no violation is found in it.  What that means of its parts is `Snapshot.WellFormed`, without the
order in which the parts are looked at (`isValid_iff_wellFormed`).
-/
namespace IdeExport

structure Target.WellFormed (target : Target) : Prop where
  name : target.name ≠ []
  buildDirectory : target.buildDirectory ≠ []

structure Project.WellFormed (project : Project) : Prop where
  name : project.name ≠ []
  noSlash : '/' ∉ project.name
  noBackslash : '\\' ∉ project.name
  outputDirectory : project.outputDirectory ≠ []
  targets : ∀ target ∈ project.targets, target.WellFormed

namespace Snapshot

structure WellFormed (s : Snapshot) : Prop where
  homeDirectory : s.build.homeDirectory ≠ []
  homeOutputDirectory : s.build.homeOutputDirectory ≠ []
  extension : s.policy.extension ≠ []
  noSlash : '/' ∉ s.policy.extension
  projects : ∀ project ∈ s.projects, project.WellFormed
  names : (s.projects.map (·.name)).Nodup

theorem violationIf_eq_nil_iff {bad : Bool} {v : Violation} : violationIf bad v = [] ↔ bad = false := by
  unfold violationIf
  cases bad <;> simp

theorem targetViolations_eq_nil_iff {project : Text} {target : Target} :
    targetViolations project target = [] ↔ target.WellFormed := by
  simp only [targetViolations, List.append_eq_nil_iff, violationIf_eq_nil_iff, List.isEmpty_eq_false_iff]
  exact ⟨fun h => ⟨h.1, h.2⟩, fun h => ⟨h.name, h.buildDirectory⟩⟩

theorem projectViolations_eq_nil_iff {project : Project} : projectViolations project = [] ↔ project.WellFormed := by
  simp only [projectViolations, List.append_eq_nil_iff, violationIf_eq_nil_iff, List.isEmpty_eq_false_iff, hasSeparator,
    Bool.or_eq_false_iff, List.contains_eq_mem, decide_eq_false_iff_not, List.flatMap_eq_nil_iff,
    targetViolations_eq_nil_iff]
  constructor
  · rintro ⟨⟨⟨hname, hslash, hbackslash⟩, hdirectory⟩, htargets⟩
    exact ⟨hname, hslash, hbackslash, hdirectory, htargets⟩
  · intro h
    exact ⟨⟨⟨h.name, h.noSlash, h.noBackslash⟩, h.outputDirectory⟩, h.targets⟩

theorem projectsViolations_eq_nil_iff : ∀ (projects : List Project) (seen : List Text),
    projectsViolations seen projects = [] ↔
      (∀ project ∈ projects, project.WellFormed) ∧ (projects.map (·.name)).Nodup ∧
        ∀ name ∈ projects.map (·.name), name ∉ seen
  | [], seen => by simp [projectsViolations]
  | project :: projects, seen => by
    have ih := projectsViolations_eq_nil_iff projects (project.name :: seen)
    simp only [projectsViolations, List.append_eq_nil_iff, projectViolations_eq_nil_iff, violationIf_eq_nil_iff, ih,
      List.contains_eq_mem, decide_eq_false_iff_not, List.map_cons, List.nodup_cons, List.mem_cons, forall_eq_or_imp,
      not_or]
    grind

/-- **Validation accepts the well-formed snapshots.** -/
theorem isValid_iff_wellFormed (s : Snapshot) : s.IsValid ↔ s.WellFormed := by
  simp only [IsValid, violations, settingsViolations, policyViolations, isFileExtension, List.append_eq_nil_iff,
    violationIf_eq_nil_iff, projectsViolations_eq_nil_iff, List.isEmpty_eq_false_iff, Bool.not_eq_false',
    Bool.and_eq_true, Bool.not_eq_true', List.contains_eq_mem, decide_eq_false_iff_not]
  constructor
  · rintro ⟨⟨⟨hhome, houtput⟩, hextension, hslash⟩, hprojects, hnames, -⟩
    exact ⟨hhome, houtput, hextension, hslash, hprojects, hnames⟩
  · intro h
    exact ⟨⟨⟨h.homeDirectory, h.homeOutputDirectory⟩, h.extension, h.noSlash⟩, h.projects, h.names,
      fun _ _ => List.not_mem_nil⟩

theorem validate_eq_ok_iff {source : Text} {s : Snapshot} : validate source s = .ok () ↔ s.IsValid := by
  unfold validate IsValid
  cases s.violations <;> simp

end Snapshot
end IdeExport
