import IdeExport.Export
import IdeExport.Proofs.Pipeline.Prepared
import Mathlib.Data.List.Nodup
/-!
# Siblings

A project sees the other projects of its build only when a link item is none of its own targets: then the first target
of that name counts, and of this target only that it is there and where its output is.  So siblings in which the link
items are resolved alike make no difference (`siblings_matter_for_links_only`).
-/
namespace IdeExport

/-! ## Resolving -/

def firstIn (projects : List Project) (name : Text) : Option Target :=
  (projects.flatMap Project.targets).find? (·.name = name)

theorem isSome_find?_name_iff {targets : List Target} {name : Text} :
    (targets.find? (·.name = name)).isSome = true ↔ name ∈ targets.map (·.name) := by
  rw [List.find?_isSome, List.mem_map]
  simp only [decide_eq_true_eq]

theorem find?_name_eq_none {targets : List Target} {name : Text} (h : name ∉ targets.map (·.name)) :
    targets.find? (·.name = name) = none := by
  rwa [← isSome_find?_name_iff, Bool.not_eq_true, Option.isSome_eq_false_iff, Option.isNone_iff_eq_none] at h

/-- What a link item is resolved to: nothing without a target of its name, else the location of the target. -/
def ProjectGraph.resolve (graph : ProjectGraph) (item : Text) : Option (Option Text) :=
  (graph.findTarget item).map (·.locationFor graph.buildType)

namespace Project

def linkItems (project : Project) : List Text := project.targets.flatMap (·.linkLibraries)

/-- Whether another project declares a link item of a project. -/
def linksInto (project other : Project) : Bool := other.targets.any (fun target => project.linkItems.contains target.name)

/-- The link items of a project that are none of its own targets are resolved alike in two lists of projects: both have
no target of that name, or the first of them have the same location. -/
def ResolvesAlike (project : Project) (settings : BuildSettings) (siblings others : List Project) : Prop :=
  ∀ item ∈ project.linkItems, item ∉ project.targets.map (·.name) →
    (firstIn siblings item).map (·.locationFor settings.buildType) =
      (firstIn others item).map (·.locationFor settings.buildType)

end Project

variable {settings : BuildSettings} {project : Project} {siblings others : List Project}

theorem resolve_congr (h : project.ResolvesAlike settings siblings others) {item : Text}
    (hitem : item ∈ project.linkItems) :
    ProjectGraph.resolve ⟨settings, project, siblings⟩ item = ProjectGraph.resolve ⟨settings, project, others⟩ item := by
  unfold ProjectGraph.resolve ProjectGraph.findTarget
  rw [List.find?_append, List.find?_append]
  by_cases hown : item ∈ project.targets.map (·.name)
  · have hsome := isSome_find?_name_iff.2 hown
    rw [Option.or_of_isSome hsome, Option.or_of_isSome hsome]
    rfl
  · rw [find?_name_eq_none hown, Option.none_or, Option.none_or]
    exact h item hitem hown

/-! ## What is made of a resolved link -/

theorem isNone_findTarget (graph : ProjectGraph) (item : Text) :
    (graph.findTarget item).isNone = (graph.resolve item).isNone := by
  unfold ProjectGraph.resolve
  cases graph.findTarget item <;> rfl

theorem linkEntry_eq (graph : ProjectGraph) (item : Text) : TargetSettings.linkEntry graph item =
    ⟨TargetSettings.libraryName item, (graph.resolve item).bind (·.bind Path.parentDirectory)⟩ := by
  unfold TargetSettings.linkEntry ProjectGraph.resolve
  cases graph.findTarget item <;> rfl

theorem externalItems_congr (h : project.ResolvesAlike settings siblings others) {target : Target}
    (htarget : target ∈ project.targets) :
    Validation.externalItems ⟨settings, project, siblings⟩ target =
      Validation.externalItems ⟨settings, project, others⟩ target := by
  unfold Validation.externalItems
  apply List.filter_congr
  intro item hitem
  have hlink : item ∈ project.linkItems := List.mem_flatMap.2 ⟨target, htarget, hitem⟩
  rw [isNone_findTarget, isNone_findTarget, resolve_congr h hlink]

theorem targetsFindings_congr (h : project.ResolvesAlike settings siblings others) :
    ∀ (targets : List Target) (seen : List Text), (∀ target ∈ targets, target ∈ project.targets) →
      Validation.targetsFindings ⟨settings, project, siblings⟩ seen targets =
        Validation.targetsFindings ⟨settings, project, others⟩ seen targets
  | [], _, _ => rfl
  | target :: targets, seen, hmem => by
    obtain ⟨htarget, htargets⟩ := List.forall_mem_cons.1 hmem
    have hfindings : Validation.targetFindings ⟨settings, project, siblings⟩ seen target =
        Validation.targetFindings ⟨settings, project, others⟩ seen target := by
      unfold Validation.targetFindings
      rw [externalItems_congr h htarget]
      rfl
    rw [Validation.targetsFindings, Validation.targetsFindings, hfindings, targetsFindings_congr h targets _ htargets]

theorem findings_congr (h : project.ResolvesAlike settings siblings others) :
    Validation.findings ⟨settings, project, siblings⟩ = Validation.findings ⟨settings, project, others⟩ := by
  have htargets := targetsFindings_congr h project.targets [] (fun _ htarget => htarget)
  unfold Validation.findings
  exact congrArg (_ ++ ·) htargets

theorem ofTarget_congr (h : project.ResolvesAlike settings siblings others) {target : Target}
    (htarget : target ∈ project.targets) :
    TargetSettings.ofTarget ⟨settings, project, siblings⟩ target =
      TargetSettings.ofTarget ⟨settings, project, others⟩ target := by
  have hlinks : target.linkLibraries.map (TargetSettings.linkEntry ⟨settings, project, siblings⟩) =
      target.linkLibraries.map (TargetSettings.linkEntry ⟨settings, project, others⟩) := by
    apply List.map_congr_left
    intro item hitem
    have hlink : item ∈ project.linkItems := List.mem_flatMap.2 ⟨target, htarget, hitem⟩
    rw [linkEntry_eq, linkEntry_eq, resolve_congr h hlink]
  unfold TargetSettings.ofTarget
  rw [hlinks]

theorem artifacts_congr (h : project.ResolvesAlike settings siblings others) (policy : ExportPolicy)
    (probe : Text → Bool) :
    Artifacts.ofGraph ⟨settings, project, siblings⟩ policy probe =
      Artifacts.ofGraph ⟨settings, project, others⟩ policy probe := by
  have hsettings : ∀ targets : List Target, (∀ target ∈ targets, target ∈ project.targets) →
      Phase.addSettings ⟨settings, project, siblings⟩ targets [] =
        Phase.addSettings ⟨settings, project, others⟩ targets [] := by
    intro targets hmem
    unfold Phase.addSettings
    apply List.foldl_ext
    intro gathered target htarget
    rw [ofTarget_congr h (hmem target htarget)]
  have hbuildable := hsettings (project.targets.filter (·.kind.isBuildable)) (fun _ => List.mem_of_mem_filter)
  unfold Artifacts.ofGraph
  exact congrArg (Artifacts.mk _ _) hbuildable

/-! ## What becomes of a project -/

/-- Two graphs come to the same: they fare alike, and if they pass, there is the same to be written for them. -/
def ComesToSame (policy : ExportPolicy) (probe : Text → Bool) (graph other : ProjectGraph) : Prop :=
  verdict (prepare graph policy probe []) = verdict (prepare other policy probe []) ∧
    prepareProject policy probe graph = prepareProject policy probe other

theorem comesToSame_of_resolvesAlike (h : project.ResolvesAlike settings siblings others) (policy : ExportPolicy)
    (probe : Text → Bool) :
    ComesToSame policy probe ⟨settings, project, siblings⟩ ⟨settings, project, others⟩ := by
  have hfindings := findings_congr h
  have hartifacts := artifacts_congr h policy probe
  have hcontext : PreparedProject.ofContext (.passed ⟨settings, project, siblings⟩ policy probe) =
      PreparedProject.ofContext (.passed ⟨settings, project, others⟩ policy probe) := by
    unfold PreparedProject.ofContext Context.passed
    rw [hfindings, hartifacts]
    rfl
  constructor
  · exact verdict_prepare_congr (by rfl) (by rfl) hfindings policy policy probe probe
  · unfold prepareProject
    rw [prepared_eq, prepared_eq, hfindings]
    cases Validation.missingSetting? settings with
    | some setting => rfl
    | none =>
      by_cases herrors : Diagnostics.hasErrors (Validation.findings ⟨settings, project, others⟩) = true
      · simp only [if_pos herrors]
        rfl
      · simp only [if_neg herrors]
        exact congrArg Except.ok hcontext

/-! ## Siblings that resolve alike -/

theorem find?_name_eq_some_iff {targets : List Target} (hnodup : (targets.map (·.name)).Nodup) {name : Text}
    {target : Target} : targets.find? (·.name = name) = some target ↔ target ∈ targets ∧ target.name = name := by
  constructor
  · intro hfound
    have hname := List.find?_some hfound
    exact ⟨List.mem_of_find?_eq_some hfound, of_decide_eq_true hname⟩
  · rintro ⟨hmem, hname⟩
    have hsome := isSome_find?_name_iff.2 (List.mem_map.2 ⟨target, hmem, hname⟩)
    obtain ⟨first, hfirst⟩ := Option.isSome_iff_exists.1 hsome
    have hfirstName := List.find?_some hfirst
    have hsame : first.name = target.name := (of_decide_eq_true hfirstName).trans hname.symm
    rw [hfirst, List.inj_on_of_nodup_map hnodup (List.mem_of_find?_eq_some hfirst) hmem hsame]

theorem firstIn_perm (hnodup : ((siblings.flatMap Project.targets).map (·.name)).Nodup) (hperm : siblings.Perm others)
    (name : Text) : firstIn siblings name = firstIn others name := by
  have htargets : (siblings.flatMap Project.targets).Perm (others.flatMap Project.targets) := hperm.flatMap_right _
  have hothers : ((others.flatMap Project.targets).map (·.name)).Nodup := (htargets.map _).nodup hnodup
  apply Option.ext
  intro target
  unfold firstIn
  rw [find?_name_eq_some_iff hnodup, find?_name_eq_some_iff hothers, htargets.mem_iff]

/-- Projects that declare no link item are passed over. -/
theorem firstIn_filter_linksInto {item : Text} (hitem : item ∈ project.linkItems) : ∀ projects : List Project,
    firstIn (projects.filter project.linksInto) item = firstIn projects item
  | [] => rfl
  | other :: projects => by
    have ih := firstIn_filter_linksInto hitem projects
    unfold firstIn at ih ⊢
    -- a project that is left out has no target of this name, so the search goes on behind it in both lists
    by_cases hlinks : project.linksInto other = true
    · rw [List.filter_cons_of_pos hlinks, List.flatMap_cons, List.flatMap_cons, List.find?_append, List.find?_append, ih]
    · have hitemOther : item ∉ other.targets.map (·.name) := by
        intro hmem
        obtain ⟨target, htarget, hname⟩ := List.mem_map.1 hmem
        have hlink : project.linkItems.contains target.name = true := by
          rw [hname]
          exact List.contains_iff_mem.2 hitem
        exact hlinks (List.any_eq_true.2 ⟨target, htarget, hlink⟩)
      rw [List.filter_cons_of_neg hlinks, List.flatMap_cons, List.find?_append, find?_name_eq_none hitemOther,
        Option.none_or, ih]

/-- **Siblings matter for links only.**  Siblings in which the link items of a project are resolved alike make no
difference to what becomes of it.  So their order does not matter if they declare no name twice, and projects that
declare no link item do not matter at all, wherever they stand. -/
theorem siblings_matter_for_links_only (settings : BuildSettings) (project : Project) (policy : ExportPolicy)
    (probe : Text → Bool) (siblings others : List Project) :
    (project.ResolvesAlike settings siblings others →
      ComesToSame policy probe ⟨settings, project, siblings⟩ ⟨settings, project, others⟩) ∧
    (((siblings.flatMap Project.targets).map (·.name)).Nodup → siblings.Perm others →
      ComesToSame policy probe ⟨settings, project, siblings⟩ ⟨settings, project, others⟩) ∧
    (siblings.filter project.linksInto = others.filter project.linksInto →
      ComesToSame policy probe ⟨settings, project, siblings⟩ ⟨settings, project, others⟩) := by
  refine ⟨fun h => comesToSame_of_resolvesAlike h policy probe, fun hnodup hperm => ?_, fun hfilter => ?_⟩
  · have halike : project.ResolvesAlike settings siblings others := by
      intro item _ _
      rw [firstIn_perm hnodup hperm]
    exact comesToSame_of_resolvesAlike halike policy probe
  · have halike : project.ResolvesAlike settings siblings others := by
      intro item hitem _
      rw [← firstIn_filter_linksInto hitem siblings, hfilter, firstIn_filter_linksInto hitem others]
    exact comesToSame_of_resolvesAlike halike policy probe

def programProject : Project where
  name := "demo"
  outputDirectory := "/b"
  targets := [{ name := "app", kind := .executable, buildDirectory := "/b", linkLibraries := ["util", "m"] }]

def libraryProject (kind : TargetKind) : Project where
  name := "lib"
  outputDirectory := "/b/lib"
  targets := [{ name := "util", kind, buildDirectory := "/b/lib", location := some "/b/lib/libutil" }]

theorem siblings_matter_for_links_only_programProject :
    let graph := fun siblings => (⟨.complete, programProject, siblings⟩ : ProjectGraph)
    let static := libraryProject .staticLibrary
    let shared := libraryProject .sharedLibrary
    ComesToSame {} (fun _ => false) (graph [programProject, static]) (graph [shared]) ∧
    ComesToSame {} (fun _ => false) (graph [programProject, static]) (graph [static, programProject]) ∧
    ComesToSame {} (fun _ => false) (graph [programProject, static]) (graph [static]) := by
  intro graph static shared
  have halike : programProject.ResolvesAlike .complete [programProject, static] [shared] := by
    unfold Project.ResolvesAlike
    decide
  refine ⟨?_, ?_, ?_⟩
  · exact (siblings_matter_for_links_only .complete programProject {} _ _ _).1 halike
  · exact (siblings_matter_for_links_only .complete programProject {} _ _ _).2.1 (by decide) (List.Perm.swap _ _ _)
  · exact (siblings_matter_for_links_only .complete programProject {} _ _ _).2.2 (by rfl)

end IdeExport
