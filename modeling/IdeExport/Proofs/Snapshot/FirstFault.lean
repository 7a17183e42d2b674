import IdeExport.Proofs.Snapshot.WellFormed
/-!
# The fault that is reported

A snapshot that is not well-formed may have many faults, and the first of them is reported.  What comes before what is
said here without going through a snapshot: the settings come before the projects, one project before the next, and of a
project its own fields come before its targets and these before the question whether its name has been used
(`Snapshot.FirstFault`).  Validation reports that fault, whatever the text of the snapshot is (`validate_reports`).
-/
namespace IdeExport

open Snapshot (Violation)

/-! ## First faults -/

inductive Target.FirstFault (project : Text) (target : Target) : Violation → Prop
  | unnamed (hname : target.name = []) : FirstFault project target (.unnamedTarget project)
  | noBuildDirectory (hname : target.name ≠ []) (hdirectory : target.buildDirectory = []) :
    FirstFault project target (.noBuildDirectory target.name)

inductive Project.FirstFault (project : Project) : Violation → Prop
  | unnamed (hname : project.name = []) : FirstFault project .unnamedProject
  | separator (hname : project.name ≠ []) (hseparator : '/' ∈ project.name ∨ '\\' ∈ project.name) :
    FirstFault project (.separatorInName project.name)
  | noOutputDirectory (hname : project.name ≠ []) (hslash : '/' ∉ project.name) (hbackslash : '\\' ∉ project.name)
    (hdirectory : project.outputDirectory = []) : FirstFault project (.noOutputDirectory project.name)
  | target (hname : project.name ≠ []) (hslash : '/' ∉ project.name) (hbackslash : '\\' ∉ project.name)
    (hdirectory : project.outputDirectory ≠ []) {before after : List Target} {target : Target} {v : Violation}
    (htargets : project.targets = before ++ target :: after) (hbefore : ∀ other ∈ before, other.WellFormed)
    (hfault : target.FirstFault project.name v) : FirstFault project v

namespace Snapshot

/-- What does not concern the projects is as it has to be. -/
structure SettingsWellFormed (s : Snapshot) : Prop where
  homeDirectory : s.build.homeDirectory ≠ []
  homeOutputDirectory : s.build.homeOutputDirectory ≠ []
  extension : s.policy.extension ≠ []
  noSlash : '/' ∉ s.policy.extension

/-- Projects that validation goes past. -/
structure Accepted (projects : List Project) : Prop where
  wellFormed : ∀ project ∈ projects, project.WellFormed
  names : (projects.map (·.name)).Nodup

inductive FirstFault (s : Snapshot) : Violation → Prop
  | noHomeDirectory (hhome : s.build.homeDirectory = []) : FirstFault s .noHomeDirectory
  | noHomeOutputDirectory (hhome : s.build.homeDirectory ≠ []) (houtput : s.build.homeOutputDirectory = []) :
    FirstFault s .noHomeOutputDirectory
  | badExtension (hhome : s.build.homeDirectory ≠ []) (houtput : s.build.homeOutputDirectory ≠ [])
    (hextension : s.policy.extension = [] ∨ '/' ∈ s.policy.extension) :
    FirstFault s (.badExtension s.policy.extension)
  | project (hsettings : s.SettingsWellFormed) {before after : List Project} {project : Project} {v : Violation}
    (hprojects : s.projects = before ++ project :: after) (hbefore : Accepted before) (hfault : project.FirstFault v) :
    FirstFault s v
  | duplicate (hsettings : s.SettingsWellFormed) {before after : List Project} {project : Project}
    (hprojects : s.projects = before ++ project :: after) (hbefore : Accepted before) (hproject : project.WellFormed)
    (hname : project.name ∈ before.map (·.name)) : FirstFault s (.duplicateProject project.name)

/-! ## The first of some violations -/

variable {v : Violation}

theorem head?_violationIf {bad : Bool} {w : Violation} : (violationIf bad w).head? = some v ↔ bad = true ∧ w = v := by
  unfold violationIf
  cases bad <;> simp

/-- Of two checks the second one counts if nothing is wrong by the first. -/
theorem head?_append_eq_some_iff {vs ws : List Violation} :
    (vs ++ ws).head? = some v ↔ vs.head? = some v ∨ vs = [] ∧ ws.head? = some v := by
  rw [List.head?_append, Option.or_eq_some_iff, List.head?_eq_none_iff]

theorem head?_flatMap_eq_some_iff {α : Type} {check : α → List Violation} : ∀ {items : List α},
    (items.flatMap check).head? = some v ↔ ∃ before item after, items = before ++ item :: after ∧
      (∀ other ∈ before, check other = []) ∧ (check item).head? = some v
  | [] => by simp
  | item :: items => by
    rw [List.flatMap_cons, head?_append_eq_some_iff, head?_flatMap_eq_some_iff]
    constructor
    · rintro (hhere | ⟨hnil, before, other, after, rfl, hbefore, hother⟩)
      · exact ⟨[], item, items, rfl, by simp, hhere⟩
      · exact ⟨item :: before, other, after, rfl, List.forall_mem_cons.2 ⟨hnil, hbefore⟩, hother⟩
    · rintro ⟨before, other, after, hitems, hbefore, hother⟩
      cases before with
      | nil =>
        obtain ⟨rfl, -⟩ := List.cons.inj hitems
        exact Or.inl hother
      | cons first before =>
        obtain ⟨rfl, rfl⟩ := List.cons.inj hitems
        obtain ⟨hfirst, hbefore⟩ := List.forall_mem_cons.1 hbefore
        exact Or.inr ⟨hfirst, before, other, after, rfl, hbefore, hother⟩

theorem head?_targetViolations {project : Text} {target : Target} :
    (targetViolations project target).head? = some v ↔ target.FirstFault project v := by
  simp only [targetViolations, head?_append_eq_some_iff, violationIf_eq_nil_iff, head?_violationIf,
    List.isEmpty_iff, List.isEmpty_eq_false_iff]
  constructor
  · rintro (⟨hname, rfl⟩ | ⟨hname, hdirectory, rfl⟩)
    · exact .unnamed hname
    · exact .noBuildDirectory hname hdirectory
  · rintro (hname | ⟨hname, hdirectory⟩)
    · exact Or.inl ⟨hname, rfl⟩
    · exact Or.inr ⟨hname, hdirectory, rfl⟩

theorem hasSeparator_iff {name : Text} : hasSeparator name = true ↔ '/' ∈ name ∨ '\\' ∈ name := by
  simp [hasSeparator]

theorem hasSeparator_eq_false_iff {name : Text} : hasSeparator name = false ↔ '/' ∉ name ∧ '\\' ∉ name := by
  simp [hasSeparator]

theorem head?_projectViolations {project : Project} :
    (projectViolations project).head? = some v ↔ project.FirstFault v := by
  simp only [projectViolations, List.append_assoc, head?_append_eq_some_iff, violationIf_eq_nil_iff, head?_violationIf,
    head?_flatMap_eq_some_iff, targetViolations_eq_nil_iff, head?_targetViolations, hasSeparator_iff,
    hasSeparator_eq_false_iff, List.isEmpty_iff, List.isEmpty_eq_false_iff]
  constructor
  · rintro (⟨hname, rfl⟩ | ⟨hname, ⟨hseparator, rfl⟩ | ⟨⟨hslash, hbackslash⟩, ⟨hdirectory, rfl⟩ |
      ⟨hdirectory, before, target, after, htargets, hbefore, hfault⟩⟩⟩)
    · exact .unnamed hname
    · exact .separator hname hseparator
    · exact .noOutputDirectory hname hslash hbackslash hdirectory
    · exact .target hname hslash hbackslash hdirectory htargets hbefore hfault
  · rintro (hname | ⟨hname, hseparator⟩ | ⟨hname, hslash, hbackslash, hdirectory⟩ |
      ⟨hname, hslash, hbackslash, hdirectory, htargets, hbefore, hfault⟩)
    · exact Or.inl ⟨hname, rfl⟩
    · exact Or.inr ⟨hname, Or.inl ⟨hseparator, rfl⟩⟩
    · exact Or.inr ⟨hname, Or.inr ⟨⟨hslash, hbackslash⟩, Or.inl ⟨hdirectory, rfl⟩⟩⟩
    · exact Or.inr ⟨hname, Or.inr ⟨⟨hslash, hbackslash⟩, Or.inr ⟨hdirectory, _, _, _, htargets, hbefore, hfault⟩⟩⟩

/-- Of the first project that is not accepted, what it shows on its own counts before its name does. -/
theorem head?_projectsViolations : ∀ {projects : List Project} {seen : List Text},
    (projectsViolations seen projects).head? = some v ↔ ∃ before project after,
      projects = before ++ project :: after ∧ projectsViolations seen before = [] ∧
        (project.FirstFault v ∨ project.WellFormed ∧ (project.name ∈ before.map (·.name) ∨ project.name ∈ seen) ∧
          .duplicateProject project.name = v)
  | [], seen => by simp [projectsViolations]
  | project :: projects, seen => by
    have hown : (projectViolations project ++
        violationIf (seen.contains project.name) (.duplicateProject project.name)).head? = some v ↔
        project.FirstFault v ∨
          project.WellFormed ∧ project.name ∈ seen ∧ .duplicateProject project.name = v := by
      simp only [head?_append_eq_some_iff, head?_projectViolations, projectViolations_eq_nil_iff, head?_violationIf,
        List.contains_eq_mem, decide_eq_true_eq]
    rw [projectsViolations, head?_append_eq_some_iff, hown, head?_projectsViolations]
    constructor
    · rintro (hfault | ⟨hnil, before, other, after, rfl, hbefore, hfault⟩)
      · exact ⟨[], project, projects, rfl, rfl, by simpa using hfault⟩
      · refine ⟨project :: before, other, after, rfl, ?_, ?_⟩
        · rw [projectsViolations, hnil, hbefore, List.nil_append]
        · simpa [or_assoc, or_left_comm] using hfault
    · rintro ⟨before, other, after, hprojects, hbefore, hfault⟩
      cases before with
      | nil =>
        obtain ⟨rfl, -⟩ := List.cons.inj hprojects
        exact Or.inl (by simpa using hfault)
      | cons first before =>
        obtain ⟨rfl, rfl⟩ := List.cons.inj hprojects
        rw [projectsViolations, List.append_eq_nil_iff] at hbefore
        exact Or.inr ⟨hbefore.1, before, other, after, rfl, hbefore.2, by simpa [or_assoc, or_left_comm] using hfault⟩

theorem projectsViolations_eq_nil_iff_accepted {projects : List Project} :
    projectsViolations [] projects = [] ↔ Accepted projects := by
  rw [projectsViolations_eq_nil_iff]
  exact ⟨fun h => ⟨h.1, h.2.1⟩, fun h => ⟨h.wellFormed, h.names, fun _ _ => List.not_mem_nil⟩⟩

theorem head?_violations (s : Snapshot) : s.violations.head? = some v ↔ s.FirstFault v := by
  simp only [violations, settingsViolations, policyViolations, List.append_assoc, head?_append_eq_some_iff,
    violationIf_eq_nil_iff, head?_violationIf, head?_projectsViolations, projectsViolations_eq_nil_iff_accepted,
    isFileExtension, List.isEmpty_iff, List.isEmpty_eq_false_iff, List.contains_eq_mem, Bool.not_and, Bool.not_not,
    Bool.or_eq_true, Bool.or_eq_false_iff, decide_eq_true_eq, decide_eq_false_iff_not, List.not_mem_nil, or_false]
  constructor
  · rintro (⟨hhome, rfl⟩ | ⟨hhome, ⟨houtput, rfl⟩ | ⟨houtput, ⟨hextension, rfl⟩ |
      ⟨⟨hextension, hslash⟩, before, project, after, hprojects, hbefore, hfault | ⟨hproject, hname, rfl⟩⟩⟩⟩)
    · exact .noHomeDirectory hhome
    · exact .noHomeOutputDirectory hhome houtput
    · exact .badExtension hhome houtput hextension
    · exact .project ⟨hhome, houtput, hextension, hslash⟩ hprojects hbefore hfault
    · exact .duplicate ⟨hhome, houtput, hextension, hslash⟩ hprojects hbefore hproject hname
  · rintro (hhome | ⟨hhome, houtput⟩ | ⟨hhome, houtput, hextension⟩ | ⟨⟨hhome, houtput, hextension, hslash⟩, hprojects,
      hbefore, hfault⟩ | ⟨⟨hhome, houtput, hextension, hslash⟩, hprojects, hbefore, hproject, hname⟩)
    · exact Or.inl ⟨hhome, rfl⟩
    · exact Or.inr ⟨hhome, Or.inl ⟨houtput, rfl⟩⟩
    · exact Or.inr ⟨hhome, Or.inr ⟨houtput, Or.inl ⟨hextension, rfl⟩⟩⟩
    · exact Or.inr ⟨hhome, Or.inr ⟨houtput, Or.inr ⟨⟨hextension, hslash⟩, _, _, _, hprojects, hbefore, Or.inl hfault⟩⟩⟩
    · exact Or.inr ⟨hhome, Or.inr ⟨houtput,
        Or.inr ⟨⟨hextension, hslash⟩, _, _, _, hprojects, hbefore, Or.inr ⟨hproject, hname, rfl⟩⟩⟩⟩

/-! ## What is reported -/

def Error.violation? : Error → Option Violation
  | .duplicateProject name _ _ => some (.duplicateProject name)
  | .invalid v _ => some v
  | .unreadable _ | .unsupportedFormat _ | .malformed _ => none

theorem Error.violation?_ofViolation (source : Text) (v : Violation) : (ofViolation source v).violation? = some v := by
  unfold ofViolation
  split
  · split <;> rfl
  · rfl

theorem Error.message_of_violation? {error : Error} (h : error.violation? = some v) : error.message = v.message := by
  cases error with
  | duplicateProject name first second => cases h; rfl
  | invalid w span => cases h; rfl
  | unreadable | unsupportedFormat | malformed => cases h

theorem validate_eq_error_iff {source : Text} {s : Snapshot} {error : Error} :
    validate source s = .error error ↔ ∃ v, s.FirstFault v ∧ Error.ofViolation source v = error := by
  unfold validate
  simp only [← head?_violations]
  cases s.violations with
  | nil => simp
  | cons w ws => simp

/-- **Validation accepts the well-formed snapshots and reports the first fault of any other.**  The text of the snapshot
has no say in which fault that is. -/
theorem validate_reports (source : Text) (s : Snapshot) :
    (validate source s = .ok () ↔ s.WellFormed) ∧
    (∀ v, s.FirstFault v ↔ ∃ error, validate source s = .error error ∧ error.violation? = some v) ∧
    ∀ error, validate source s = .error error →
      ∃ v, s.FirstFault v ∧ error.violation? = some v ∧ error.message = v.message := by
  refine ⟨validate_eq_ok_iff.trans (isValid_iff_wellFormed s), fun v => ⟨fun hfault => ?_, ?_⟩, fun error herror => ?_⟩
  · exact ⟨_, validate_eq_error_iff.2 ⟨v, hfault, rfl⟩, Error.violation?_ofViolation source v⟩
  · rintro ⟨error, herror, hreported⟩
    obtain ⟨w, hfault, rfl⟩ := validate_eq_error_iff.1 herror
    rw [Error.violation?_ofViolation] at hreported
    exact Option.some.inj hreported ▸ hfault
  · obtain ⟨v, hfault, rfl⟩ := validate_eq_error_iff.1 herror
    have hreported := Error.violation?_ofViolation source v
    exact ⟨v, hfault, hreported, Error.message_of_violation? hreported⟩

end Snapshot
end IdeExport
