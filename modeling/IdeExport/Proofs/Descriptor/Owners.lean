import IdeExport.Proofs.Descriptor.View
import IdeExport.Proofs.Pipeline.Prepared
import IdeExport.Proofs.Sources.Classification
import Mathlib.Data.List.Nodup
/-!
# Owners of units

A unit names its owners, and a target block has a title.  Sources are classified by the kind of their target and
blocks are listed by kind and name, so the two differ for one sort of target only: a part of a dashboard, which may
own sources and has no block.  Every other owner is the title of a block (`owner_mem_targetTitles_iff`).
-/
namespace IdeExport

/-- A part of a dashboard target: a utility whose name goes on after the name of the dashboard. -/
def Target.IsDashboardPart (target : Target) : Prop :=
  target.kind = .utility ∧ ∃ dashboard ∈ dashboardNames, ∃ rest, rest ≠ [] ∧ target.name = dashboard ++ rest

theorem isListedUtility_iff (name : Text) :
    isListedUtility name = true ↔ ¬ ∃ dashboard ∈ dashboardNames, ∃ rest, rest ≠ [] ∧ name = dashboard ++ rest := by
  simp only [isListedUtility, Bool.not_eq_true', List.any_eq_false, Bool.and_eq_true, decide_eq_true_eq, not_exists,
    not_and]
  constructor
  · intro h dashboard hdashboard rest hrest hname
    refine h dashboard hdashboard ?_ ?_
    · rw [hname, List.isPrefixOf_iff_prefix]
      exact List.prefix_append dashboard rest
    · rw [hname]
      simpa using hrest
  · intro h dashboard hdashboard hprefix hne
    obtain ⟨rest, hrest⟩ := List.isPrefixOf_iff_prefix.1 hprefix
    refine h dashboard hdashboard rest ?_ hrest.symm
    rintro rfl
    exact hne (by rw [← hrest, List.append_nil])

theorem isListed_iff_of_hasSources {target : Target} (h : target.kind.hasSources = true) :
    target.isListed = true ↔ ¬ target.IsDashboardPart := by
  unfold Target.isListed Target.IsDashboardPart
  cases hkind : target.kind with
  | utility => simp [isListedUtility_iff]
  | other => rw [hkind] at h; cases h
  | executable | staticLibrary | sharedLibrary | moduleLibrary | objectLibrary => simp [TargetKind.isBuildable]

theorem not_isListed_of_isDashboardPart {target : Target} (h : target.IsDashboardPart) : target.isListed = false := by
  have hsources : target.kind.hasSources = true := by rw [h.1]; rfl
  exact Bool.eq_false_iff.2 (fun hlisted => (isListed_iff_of_hasSources hsources).1 hlisted h)

theorem rebuildTitle_ne_dashboardPart {target : Target} (h : target.IsDashboardPart) :
    target.name ≠ "rebuild_cache" := by
  obtain ⟨-, dashboard, hdashboard, rest, -, hname⟩ := h
  intro he
  rw [he] at hname
  simp only [dashboardNames, List.mem_cons, List.not_mem_nil, or_false] at hdashboard
  rcases hdashboard with rfl | rfl | rfl <;> simp at hname

namespace Descriptor

open DescriptorTree

variable {graph : ProjectGraph} {policy : ExportPolicy} {probe : Text → Bool} {ctx : Context}

theorem exists_target_of_mem_ownerNames (h : prepared graph policy probe = .ok ctx) {owner : Text}
    (howner : owner ∈ (ofArtifacts graph policy ctx.artifacts).ownerNames) :
    ∃ target ∈ graph.targets, target.kind.hasSources = true ∧ target.name = owner := by
  obtain ⟨-, -, rfl⟩ := prepared_eq_ok_iff.1 h
  rw [ownerNames_ofArtifacts] at howner
  obtain ⟨⟨path, owners⟩, hfile, howner⟩ := List.mem_flatMap.1 howner
  split at howner
  · -- finding headers leaves the paired files as classification made them
    have hclassified : (path, owners) ∈ (Sources.classify graph.settings.sourceExtensions graph.targets).paired := hfile
    obtain ⟨source, hlisting, -, -⟩ := (Sources.mem_owners_classify hclassified).1 howner
    obtain ⟨target, htarget, hkind, hname, -, -⟩ := Sources.mem_listings.1 hlisting
    exact ⟨target, htarget, hkind, hname.symm⟩
  · cases howner

/-- **The owners that a descriptor names are the titles of its target blocks, parts of dashboards excepted.**  A
part of a dashboard has no block, and its name is the title of no other. -/
theorem owner_mem_targetTitles_iff (h : prepared graph policy probe = .ok ctx) {owner : Text}
    (howner : owner ∈ (ofArtifacts graph policy ctx.artifacts).ownerNames) :
    owner ∈ (ofArtifacts graph policy ctx.artifacts).targetTitles ↔
      ¬ ∃ target ∈ graph.targets, target.name = owner ∧ target.IsDashboardPart := by
  rw [targetTitles_ofArtifacts, List.mem_append]
  constructor
  · rintro hmem ⟨part, hpart, rfl, hdashboard⟩
    rcases hmem with hmem | hmem
    · unfold rebuildTitles at hmem
      split at hmem
      · exact rebuildTitle_ne_dashboardPart hdashboard (List.mem_singleton.1 hmem)
      · cases hmem
    · obtain ⟨target, hlisted, hname⟩ := List.mem_map.1 hmem
      obtain ⟨htarget, hlisted⟩ := List.mem_filter.1 hlisted
      have hsame : target = part :=
        List.inj_on_of_nodup_map (nodup_names_of_prepared h) htarget hpart hname
      rw [hsame, not_isListed_of_isDashboardPart hdashboard] at hlisted
      cases hlisted
  · intro hnone
    obtain ⟨target, htarget, hkind, hname⟩ := exists_target_of_mem_ownerNames h howner
    have hlisted : target.isListed = true :=
      (isListed_iff_of_hasSources hkind).2 (fun hdashboard => hnone ⟨target, htarget, hname, hdashboard⟩)
    exact Or.inr (List.mem_map.2 ⟨target, List.mem_filter.2 ⟨htarget, hlisted⟩, hname⟩)

/-- A project in which a program and a part of a dashboard own the same file. -/
def nightlyGraph : ProjectGraph where
  settings := .complete
  project :=
    { name := "demo", outputDirectory := "/b",
      targets :=
        [{ name := "app", kind := .executable, buildDirectory := "/b",
           sources := [{ path := "/s/a.c", language := some .c }] },
         { name := "NightlyMemCheck", kind := .utility, buildDirectory := "/b",
           sources := [{ path := "/s/a.c", language := some .c }] }] }

/-- The names that units give do not all have a block: the part of the dashboard is named and has none. -/
theorem not_forall_owner_mem_targetTitles :
    ¬ ∀ (graph : ProjectGraph) (policy : ExportPolicy) (probe : Text → Bool) (ctx : Context),
      policy.unitTargets = true → prepared graph policy probe = .ok ctx →
      ∀ owner ∈ (ofArtifacts graph policy ctx.artifacts).ownerNames,
        owner ∈ (ofArtifacts graph policy ctx.artifacts).targetTitles := by
  intro h
  have hpart := h nightlyGraph {} (fun _ => false) _ rfl rfl "NightlyMemCheck" (by decide)
  revert hpart
  decide

theorem owner_mem_targetTitles_iff_app :
    prepared nightlyGraph {} (fun _ => false) = .ok (.passed nightlyGraph {} fun _ => false) ∧
    "app".toList ∈ (ofArtifacts nightlyGraph {} (Context.passed nightlyGraph {} fun _ => false).artifacts).ownerNames ∧
    ("app".toList ∈
        (ofArtifacts nightlyGraph {} (Context.passed nightlyGraph {} fun _ => false).artifacts).targetTitles ↔
      ¬ ∃ target ∈ nightlyGraph.targets, target.name = "app".toList ∧ target.IsDashboardPart) :=
  ⟨rfl, by decide, owner_mem_targetTitles_iff rfl (by decide)⟩

end Descriptor
end IdeExport
