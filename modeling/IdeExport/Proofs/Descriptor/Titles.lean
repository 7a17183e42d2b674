import IdeExport.Proofs.Descriptor.View
import IdeExport.Proofs.Pipeline.Prepared
import Mathlib.Data.List.Nodup
/-!
# Titles of target blocks

Validation lets no two targets have one name, so the blocks of the targets have different titles.  The block that the
refresh style adds has a title of its own, which validation does not know of: a target may have it as its name, and
then it is there twice.  No other title can be (`nodup_targetTitles_iff`).
-/
namespace IdeExport

/-- Whatever its kind, a target that is called like the block of the refresh style has a block, unless it is one of
those that never have. -/
theorem Target.isListed_iff_of_rebuildTitle {target : Target} (hname : target.name = "rebuild_cache") :
    target.isListed = true ↔ target.kind ≠ .other := by
  have hutility : isListedUtility target.name = true := by
    rw [hname]
    decide
  unfold Target.isListed
  cases hkind : target.kind <;> simp [hutility, TargetKind.isBuildable]

namespace Descriptor

open DescriptorTree

variable {graph : ProjectGraph} {policy : ExportPolicy} {probe : Text → Bool} {ctx : Context}

theorem nodup_names_listedTargets (h : prepared graph policy probe = .ok ctx) :
    ((listedTargets graph).map (·.name)).Nodup :=
  (nodup_names_of_prepared h).sublist (List.filter_sublist.map _)

theorem rebuildTitle_mem_names_listedTargets : "rebuild_cache".toList ∈ (listedTargets graph).map (·.name) ↔
    ∃ target ∈ graph.targets, target.kind ≠ .other ∧ target.name = "rebuild_cache" := by
  rw [List.mem_map]
  constructor
  · rintro ⟨target, hlisted, hname⟩
    obtain ⟨htarget, hlisted⟩ := List.mem_filter.1 hlisted
    exact ⟨target, htarget, (Target.isListed_iff_of_rebuildTitle hname).1 hlisted, hname⟩
  · rintro ⟨target, htarget, hkind, hname⟩
    exact ⟨target, List.mem_filter.2 ⟨htarget, (Target.isListed_iff_of_rebuildTitle hname).2 hkind⟩, hname⟩

theorem nodup_rebuildTitles (style : RefreshStyle) : (rebuildTitles style).Nodup := by
  unfold rebuildTitles
  split
  · exact List.nodup_singleton _
  · exact List.nodup_nil

theorem mem_rebuildTitles_iff {style : RefreshStyle} {title : Text} :
    title ∈ rebuildTitles style ↔ style = .rebuildTarget ∧ title = "rebuild_cache" := by
  unfold rebuildTitles
  split <;> simp [*]

/-- **A title is there twice only if a target is called like the block of the refresh style**, and that block is added.
Every other title belongs to one block at most. -/
theorem nodup_targetTitles_iff (h : prepared graph policy probe = .ok ctx) :
    (∀ title : Text, title ≠ "rebuild_cache" →
      (ofArtifacts graph policy ctx.artifacts).targetTitles.count title ≤ 1) ∧
    ((ofArtifacts graph policy ctx.artifacts).targetTitles.Nodup ↔
      ¬ (policy.refresh = .rebuildTarget ∧
        ∃ target ∈ graph.targets, target.kind ≠ .other ∧ target.name = "rebuild_cache")) := by
  have hown := nodup_names_listedTargets h
  rw [targetTitles_ofArtifacts]
  constructor
  · intro title htitle
    have hrebuild : title ∉ rebuildTitles policy.refresh := fun hmem => htitle (mem_rebuildTitles_iff.1 hmem).2
    rw [List.count_append, List.count_eq_zero_of_not_mem hrebuild, Nat.zero_add]
    exact List.nodup_iff_count_le_one.1 hown title
  · rw [List.nodup_append', ← rebuildTitle_mem_names_listedTargets]
    constructor
    · rintro ⟨-, -, hdisjoint⟩ ⟨hstyle, hmem⟩
      exact hdisjoint (mem_rebuildTitles_iff.2 ⟨hstyle, rfl⟩) hmem
    · intro hapart
      refine ⟨nodup_rebuildTitles policy.refresh, hown, fun title hrebuild hmem => ?_⟩
      obtain ⟨hstyle, rfl⟩ := mem_rebuildTitles_iff.1 hrebuild
      exact hapart ⟨hstyle, hmem⟩

/-- A project with a program and a target that has the name of the block that a refresh style adds. -/
def rebuildGraph (kind : TargetKind) : ProjectGraph where
  settings := .complete
  project :=
    { name := "demo", outputDirectory := "/b",
      targets :=
        [{ name := "app", kind := .executable, buildDirectory := "/b", location := some "/b/app" },
         { name := "rebuild_cache", kind, buildDirectory := "/b" }] }

def rebuildPolicy : ExportPolicy := { refresh := .rebuildTarget }

theorem prepared_rebuildGraph (kind : TargetKind) :
    prepared (rebuildGraph kind) rebuildPolicy (fun _ => false) =
      .ok (.passed (rebuildGraph kind) rebuildPolicy fun _ => false) := by
  cases kind <;> exact prepared_eq_ok_iff.2 ⟨rfl, rfl, rfl⟩

/-- Titles are not always different: a command of that name has a block beside the one that is added. -/
theorem not_forall_nodup_targetTitles :
    ¬ ∀ (graph : ProjectGraph) (policy : ExportPolicy) (probe : Text → Bool) (ctx : Context),
      prepared graph policy probe = .ok ctx → (ofArtifacts graph policy ctx.artifacts).targetTitles.Nodup := by
  intro h
  have hnodup := h _ _ _ _ (prepared_rebuildGraph .utility)
  rw [targetTitles_ofArtifacts] at hnodup
  revert hnodup
  decide

/-- A target of a kind without blocks may have the name. -/
theorem nodup_targetTitles_rebuildGraph :
    prepared (rebuildGraph .other) rebuildPolicy (fun _ => false) =
      .ok (.passed (rebuildGraph .other) rebuildPolicy fun _ => false) ∧
    (ofArtifacts (rebuildGraph .other) rebuildPolicy
      (Context.passed (rebuildGraph .other) rebuildPolicy fun _ => false).artifacts).targetTitles.Nodup :=
  ⟨prepared_rebuildGraph .other, (nodup_targetTitles_iff (prepared_rebuildGraph .other)).2.2 (by decide)⟩

end Descriptor
end IdeExport
