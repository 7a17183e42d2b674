import IdeExport.Proofs.Snapshot.FirstFault
import IdeExport.Proofs.Snapshot.NameFields
/-!
# Declarations

The places at which a project that is declared twice is shown.  They are found again in the text, by a search that knows
nothing of tables: a target gives its name in a line like that of a project.  So the two places are those of the two
projects exactly if no target up to the second one has their name and nothing before the projects looks like such a line
(`duplicateProject_declarations_iff`).
-/
namespace IdeExport

open Text (byteSize)
open Toml (entry)
open IdeExport.Span (nameLine valueOffsets IsRow)

/-- Two numbers of an increasing list are the first two if nothing stands before or between them. -/
theorem SortedList.firstTwo_iff {xs ys zs rest : List Nat} {x y first second : Nat}
    (hsorted : (xs ++ x :: (ys ++ y :: zs)).Pairwise (· < ·))
    (h : xs ++ x :: (ys ++ y :: zs) = first :: second :: rest) : first = x ∧ second = y ↔ xs = [] ∧ ys = [] := by
  cases xs with
  | nil =>
    obtain ⟨rfl, htail⟩ := List.cons.inj h
    cases ys with
    | nil =>
      obtain ⟨rfl, -⟩ := List.cons.inj htail
      simp
    | cons w ys =>
      obtain ⟨rfl, -⟩ := List.cons.inj htail
      have hlt : w < y :=
        (List.pairwise_append.1 (List.pairwise_cons.1 hsorted).2).2.2 w List.mem_cons_self y List.mem_cons_self
      simp [Nat.ne_of_lt hlt]
  | cons w xs =>
    obtain ⟨rfl, -⟩ := List.cons.inj h
    have hlt : w < x := (List.pairwise_append.1 hsorted).2.2 w List.mem_cons_self x List.mem_cons_self
    simp [Nat.ne_of_lt hlt]

namespace Snapshot

/-! ## Documents -/

def targetLines (target : Target) : List Text :=
  ["[[projects.targets]]", nameLine target.name, entry "kind" target.kind.name,
    entry "build_directory" target.buildDirectory]

/-- The lines of a project after the one with its name. -/
def bodyLines (project : Project) : List Text :=
  entry "output_directory" project.outputDirectory :: project.targets.flatMap targetLines

def projectHeading : Text := "[[projects]]"

def projectLines (project : Project) : List Text := projectHeading :: nameLine project.name :: bodyLines project

/-- A snapshot in TOML: the tables of the settings, then the projects with their targets. -/
def document (head : Text) (projects : List Project) : Text :=
  head ++ "\n" ++ Text.terminated "\n" (projects.flatMap projectLines)

/-- The place of a name on the name line of a project, if other projects come before. -/
def nameSpan (head : Text) (before : List Project) (name : Text) : Span :=
  ⟨byteSize (document head before) + byteSize "[[projects]]\nname = \"", byteSize name⟩

theorem document_append (head : Text) (before after : List Project) :
    document head (before ++ after) = document head before ++ Text.terminated "\n" (after.flatMap projectLines) := by
  simp only [document, List.flatMap_append, Text.terminated_append, List.append_assoc]

/-- What stands at that place is the name. -/
theorem document_append_cons (head : Text) (before after : List Project) {project : Project}
    (hname : Toml.IsLiteral project.name) : ∃ rest, document head (before ++ project :: after) =
      document head before ++ "[[projects]]\nname = \"" ++ project.name ++ '"' :: rest := by
  refine ⟨"\n" ++ Text.terminated "\n" (bodyLines project ++ after.flatMap projectLines), ?_⟩
  rw [document_append, List.flatMap_cons, projectLines, List.cons_append, List.cons_append, Text.terminated_cons,
    Text.terminated_cons, Span.nameLine_eq hname, Span.quoted]
  simp only [List.append_assoc]
  exact congrArg (document head before ++ ·) rfl

theorem isRow_of_mem_targetLines {target : Target} : ∀ line ∈ targetLines target, IsRow line := by
  simp only [targetLines, List.forall_mem_cons, List.not_mem_nil, false_imp_iff, implies_true, and_true]
  refine ⟨.heading (by decide), .entry (by decide) (fun _ => rfl) _, .entry (by decide) ?_ _, .entry (by decide) ?_ _⟩
  all_goals decide

theorem isRow_of_mem_projectLines {project : Project} : ∀ line ∈ projectLines project, IsRow line := by
  simp only [projectLines, bodyLines, List.forall_mem_cons, List.mem_flatMap]
  refine ⟨.heading (by decide), .entry (by decide) (fun _ => rfl) _, .entry (by decide) (by decide) _, ?_⟩
  rintro line ⟨target, -, hline⟩
  exact isRow_of_mem_targetLines line hline

section

variable {name : Text} (hname : Toml.IsLiteral name)

include hname

theorem nameLine_mem_targetLines_iff {target : Target} : nameLine name ∈ targetLines target ↔ target.name = name := by
  have hheading : ("[[projects.targets]]" : Text) ≠ nameLine name := Span.ne_nameLine_of_head? (by decide)
  have hkind : entry "kind" target.kind.name ≠ nameLine name := Span.ne_nameLine_of_head? (by simp [entry])
  have hdirectory : entry "build_directory" target.buildDirectory ≠ nameLine name :=
    Span.ne_nameLine_of_head? (by simp [entry])
  simp only [targetLines, List.mem_cons, List.not_mem_nil, or_false, hheading.symm, hkind.symm, hdirectory.symm,
    false_or, eq_comm (a := nameLine name), Span.nameLine_inj hname]

theorem nameLine_mem_bodyLines_iff {project : Project} :
    nameLine name ∈ bodyLines project ↔ ∃ target ∈ project.targets, target.name = name := by
  have hdirectory : entry "output_directory" project.outputDirectory ≠ nameLine name :=
    Span.ne_nameLine_of_head? (by simp [entry])
  simp only [bodyLines, List.mem_cons, hdirectory.symm, false_or, List.mem_flatMap, nameLine_mem_targetLines_iff hname]

theorem nameLine_mem_projectLines_iff {project : Project} : nameLine name ∈ projectLines project ↔
    project.name = name ∨ ∃ target ∈ project.targets, target.name = name := by
  have hheading : projectHeading ≠ nameLine name := Span.ne_nameLine_of_head? (by decide)
  simp only [projectLines, List.mem_cons, hheading.symm, false_or, eq_comm (a := nameLine name),
    Span.nameLine_inj hname, nameLine_mem_bodyLines_iff hname]

end

/-! ## The first two projects of a name -/

/-- The first two of some projects that have a name, and what is around them. -/
structure Twice (name : Text) (projects : List Project) where
  before : List Project
  first : Project
  between : List Project
  second : Project
  after : List Project
  split : projects = before ++ first :: (between ++ second :: after)
  first_name : first.name = name
  second_name : second.name = name
  before_names : ∀ project ∈ before, project.name ≠ name
  between_names : ∀ project ∈ between, project.name ≠ name

namespace Twice

variable {name : Text} {projects : List Project}

def firstSpan (twice : Twice name projects) (head : Text) : Span := nameSpan head twice.before name

def secondSpan (twice : Twice name projects) (head : Text) : Span :=
  nameSpan head (twice.before ++ twice.first :: twice.between) name

/-- No target before the second project has the name of the two. -/
def NoTargetBetween (twice : Twice name projects) : Prop :=
  ∀ project ∈ twice.before ++ twice.first :: twice.between, ∀ target ∈ project.targets, target.name ≠ name

end Twice

theorem not_firstFault_duplicateProject {project : Project} {name : Text} :
    ¬ project.FirstFault (.duplicateProject name) := by
  intro h
  cases h with
  | target _ _ _ _ _ _ hfault => cases hfault

theorem FirstFault.nonempty_twice {s : Snapshot} {name : Text} (h : s.FirstFault (.duplicateProject name)) :
    Nonempty (Twice name s.projects) := by
  cases h with
  | project _ _ _ hfault => exact absurd hfault not_firstFault_duplicateProject
  | @duplicate _ before after second hprojects hbefore _ hname =>
    obtain ⟨first, hfirst, hsame⟩ := List.mem_map.1 hname
    obtain ⟨front, between, rfl⟩ := List.append_of_mem hfirst
    have hnames := hbefore.names
    rw [List.map_append, List.map_cons, List.nodup_append, List.nodup_cons] at hnames
    refine ⟨⟨front, first, between, second, after, by simp [hprojects], hsame, rfl, ?_, ?_⟩⟩
    · rw [← hsame]
      exact fun project hproject => hnames.2.2 _ (List.mem_map_of_mem hproject) _ List.mem_cons_self
    · rw [← hsame]
      exact fun project hproject heq => hnames.2.1.1 (heq ▸ List.mem_map_of_mem hproject)

/-! ## What is found -/

theorem byteSize_document (head : Text) (projects : List Project) : byteSize (document head projects) =
    byteSize head + 1 + byteSize (Text.terminated "\n" (projects.flatMap projectLines)) := by
  rw [document, Text.byteSize_append, Text.byteSize_append]
  rfl

namespace Twice

variable {name : Text} {projects : List Project} (twice : Twice name projects)

def opening : List Text := twice.before.flatMap projectLines ++ [projectHeading]

/-- The lines between the name lines of the two projects. -/
def middle : List Text := bodyLines twice.first ++ twice.between.flatMap projectLines ++ [projectHeading]

theorem flatMap_projectLines : projects.flatMap projectLines = twice.opening ++ nameLine name ::
    (twice.middle ++ nameLine name :: (bodyLines twice.second ++ twice.after.flatMap projectLines)) := by
  refine (congrArg (List.flatMap projectLines) twice.split).trans ?_
  simp [opening, middle, projectLines, twice.first_name, twice.second_name]

theorem firstSpan_offset (head : Text) :
    (twice.firstSpan head).offset = byteSize head + 1 + (byteSize (Text.terminated "\n" twice.opening) + 8) := by
  have hopening : byteSize (Text.terminated "\n" twice.opening) =
      byteSize (Text.terminated "\n" (twice.before.flatMap projectLines)) + 13 := by
    rw [opening, Text.terminated_append, Text.byteSize_append]
    rfl
  have hoffset : (twice.firstSpan head).offset = byteSize (document head twice.before) + 21 := rfl
  rw [hoffset, byteSize_document, hopening]
  omega

theorem secondSpan_offset (head : Text) : (twice.secondSpan head).offset =
    byteSize head + 1 + (byteSize (Text.terminated "\n" twice.opening) + (byteSize (nameLine name) + 1) +
      (byteSize (Text.terminated "\n" twice.middle) + 8)) := by
  have hlines : (twice.before ++ twice.first :: twice.between).flatMap projectLines ++ [projectHeading] =
      twice.opening ++ nameLine name :: twice.middle := by
    simp [opening, middle, projectLines, twice.first_name]
  have hsize := congrArg (fun lines => byteSize (Text.terminated "\n" lines)) hlines
  simp only [Text.terminated_append, Text.terminated_cons, Text.byteSize_append] at hsize
  have hheading : byteSize projectHeading = 12 := rfl
  have hnewline : byteSize "\n" = 1 := rfl
  have hnil : byteSize (Text.terminated "\n" []) = 0 := rfl
  have hoffset : (twice.secondSpan head).offset =
      byteSize (document head (twice.before ++ twice.first :: twice.between)) + 21 := rfl
  rw [hoffset, byteSize_document]
  omega

/-- What the search finds, with the places of the two projects among it. -/
theorem ofList_fieldOffsets_document (hname : Toml.IsLiteral name) (head : Text) : ∃ xs ys zs,
    SortedList.ofList (Span.fieldOffsets name (document head projects)) =
      xs ++ (twice.firstSpan head).offset :: (ys ++ (twice.secondSpan head).offset :: zs) ∧
    (xs = [] ↔ (∀ field ∈ Span.nameFields, ¬ field ++ Span.quoted name <:+: head) ∧ nameLine name ∉ twice.opening) ∧
    (ys = [] ↔ nameLine name ∉ twice.middle) := by
  have hrows : ∀ line ∈ projects.flatMap projectLines, IsRow line := by
    intro line hline
    obtain ⟨project, -, hline⟩ := List.mem_flatMap.1 hline
    exact isRow_of_mem_projectLines line hline
  have hsource : document head projects = head ++ '\n' :: Text.terminated "\n" (projects.flatMap projectLines) := by
    rw [document, List.append_assoc]
    rfl
  have hfound := Span.ofList_fieldOffsets hname head hrows
  rw [← hsource, twice.flatMap_projectLines, Span.valueOffsets_append_nameLine, Span.valueOffsets_append_nameLine,
    List.map_append, List.map_cons, List.map_map, List.map_append, List.map_cons, ← List.append_assoc] at hfound
  simp only [Function.comp_apply] at hfound
  rw [← twice.firstSpan_offset, ← twice.secondSpan_offset] at hfound
  refine ⟨_, _, _, hfound, ?_, ?_⟩
  · rw [List.append_eq_nil_iff, List.map_eq_nil_iff, Span.valueOffsets_eq_nil_iff, ← Span.fieldOffsets_eq_nil_iff]
    simp only [List.eq_nil_iff_forall_not_mem, SortedList.mem_ofList]
  · rw [List.map_eq_nil_iff, Span.valueOffsets_eq_nil_iff]

theorem noTargetBetween_iff (hname : Toml.IsLiteral name) :
    twice.NoTargetBetween ↔ nameLine name ∉ twice.opening ∧ nameLine name ∉ twice.middle := by
  have hheading : projectHeading ≠ nameLine name := Span.ne_nameLine_of_head? (by decide)
  simp only [NoTargetBetween, opening, middle, List.mem_append, List.mem_flatMap, List.mem_cons, List.not_mem_nil,
    or_false, hheading.symm, nameLine_mem_bodyLines_iff hname, nameLine_mem_projectLines_iff hname]
  constructor
  · refine fun h => ⟨?_, ?_⟩
    · rintro ⟨project, hproject, hsame | ⟨target, htarget, hsame⟩⟩
      · exact twice.before_names project hproject hsame
      · exact h project (Or.inl hproject) target htarget hsame
    · rintro (⟨target, htarget, hsame⟩ | ⟨project, hproject, hsame | ⟨target, htarget, hsame⟩⟩)
      · exact h twice.first (Or.inr (Or.inl rfl)) target htarget hsame
      · exact twice.between_names project hproject hsame
      · exact h project (Or.inr (Or.inr hproject)) target htarget hsame
  · rintro ⟨hopening, hmiddle⟩ project (hproject | rfl | hproject) target htarget hsame
    · exact hopening ⟨project, hproject, Or.inr ⟨target, htarget, hsame⟩⟩
    · exact hmiddle (Or.inl ⟨target, htarget, hsame⟩)
    · exact hmiddle (Or.inr ⟨project, hproject, Or.inr ⟨target, htarget, hsame⟩⟩)

end Twice

/-! ## What is reported -/

theorem ofViolation_duplicateProject {source name : Text} {first second : Nat} {rest : List Nat}
    (h : SortedList.ofList (Span.fieldOffsets name source) = first :: second :: rest) :
    Error.ofViolation source (.duplicateProject name) =
      .duplicateProject name ⟨first, byteSize name⟩ ⟨second, byteSize name⟩ := by
  have hfound : Span.fieldOffsets name source ≠ [] := by
    intro hnil
    rw [hnil] at h
    cases h
  rw [Error.ofViolation, Span.allOfName, Span.nameOffsets_of_ne_nil hfound, h]
  rfl

/-- **The error on a duplicate shows the two projects exactly if no line before the second one looks like theirs.**
Such a line is that of a target of this name, or it is in the text before the projects. -/
theorem duplicateProject_declarations_iff (head : Text) {s : Snapshot} {name : Text} (twice : Twice name s.projects)
    (hname : Toml.IsLiteral name) (hfault : s.FirstFault (.duplicateProject name)) :
    ∃ first second, validate (document head s.projects) s = .error (.duplicateProject name first second) ∧
      (first = twice.firstSpan head ∧ second = twice.secondSpan head ↔
        (∀ field ∈ Span.nameFields, ¬ field ++ Span.quoted name <:+: head) ∧ twice.NoTargetBetween) := by
  obtain ⟨xs, ys, zs, hfound, hxs, hys⟩ := twice.ofList_fieldOffsets_document hname head
  have hsorted := SortedList.pairwise_ofList (Span.fieldOffsets name (document head s.projects))
  obtain ⟨first, second, rest, htwo⟩ : ∃ first second rest,
      xs ++ (twice.firstSpan head).offset :: (ys ++ (twice.secondSpan head).offset :: zs) =
        first :: second :: rest := by
    match xs, ys with
    | [], [] => exact ⟨_, _, _, rfl⟩
    | [], _ :: _ => exact ⟨_, _, _, rfl⟩
    | [_], _ => exact ⟨_, _, _, rfl⟩
    | _ :: _ :: _, _ => exact ⟨_, _, _, rfl⟩
  refine ⟨⟨first, byteSize name⟩, ⟨second, byteSize name⟩, ?_, ?_⟩
  · exact validate_eq_error_iff.2 ⟨_, hfault, ofViolation_duplicateProject (hfound.trans htwo)⟩
  · have hplace : ∀ {offset : Nat} {span : Span}, span.size = byteSize name →
        (⟨offset, byteSize name⟩ = span ↔ offset = span.offset) := by
      rintro offset ⟨place, size⟩ rfl
      rw [Span.mk.injEq, and_iff_left rfl]
    rw [hplace rfl, hplace rfl, SortedList.firstTwo_iff (hfound ▸ hsorted) htwo, hxs, hys,
      twice.noTargetBetween_iff hname, and_assoc]

def twoDemos (target : Text) : Snapshot where
  build := { homeDirectory := "/s", homeOutputDirectory := "/b" }
  projects :=
    [{ name := "demo", outputDirectory := "/b",
       targets := [{ name := target, kind := .executable, buildDirectory := "/b" }] },
     { name := "demo", outputDirectory := "/c" }]

def twoDemosTwice (target : Text) : Twice "demo" (twoDemos target).projects :=
  ⟨[], _, [], _, [], rfl, rfl, rfl, by simp, by simp⟩

def demoHead : Text := "[build]\nhome_directory = \"/s\"\nhome_output_directory = \"/b\"\n"

theorem duplicateProject_declarations_twoDemos :
    (twoDemos "app").FirstFault (.duplicateProject "demo") ∧
    validate (document demoHead (twoDemos "app").projects) (twoDemos "app") =
      .error (.duplicateProject "demo" ((twoDemosTwice "app").firstSpan demoHead)
        ((twoDemosTwice "app").secondSpan demoHead)) := by
  have hname : Toml.IsLiteral "demo" := by decide
  have hfault : (twoDemos "app").FirstFault (.duplicateProject "demo") := (head?_violations _).1 (by decide)
  obtain ⟨first, second, hreported, hplaces⟩ :=
    duplicateProject_declarations_iff demoHead (twoDemosTwice "app") hname hfault
  obtain ⟨rfl, rfl⟩ := hplaces.2 ⟨by decide +kernel, by simp [Twice.NoTargetBetween, twoDemosTwice]⟩
  exact ⟨hfault, hreported⟩

/-- A project with a target of its own name is not declared where the error says. -/
theorem not_forall_duplicateProject_declarations :
    ¬ ∀ (head : Text) (s : Snapshot) (name : Text) (twice : Twice name s.projects) (first second : Span),
      (Format.toml.parse? (document head s.projects)).bind (codec.decode? .toml) = some s →
      (∀ project ∈ s.projects, Toml.IsLiteral project.name ∧
        ∀ target ∈ project.targets, Toml.IsLiteral target.name) →
      validate (document head s.projects) s = .error (.duplicateProject name first second) →
      first = twice.firstSpan head ∧ second = twice.secondSpan head := by
  intro h
  have hfault : (twoDemos "demo").FirstFault (.duplicateProject "demo") := (head?_violations _).1 (by decide)
  have hreported : validate (document demoHead (twoDemos "demo").projects) (twoDemos "demo") =
      .error (.duplicateProject "demo" ⟨81, 4⟩ ⟨140, 4⟩) :=
    validate_eq_error_iff.2 ⟨_, hfault, by decide +kernel⟩
  have hsecond := (h demoHead (twoDemos "demo") "demo" (twoDemosTwice "demo") _ _ (by decide +kernel)
    (by decide +kernel) hreported).2
  exact absurd hsecond (by decide +kernel)

end Snapshot
end IdeExport
