import IdeExport.Proofs.Descriptor.View
import IdeExport.Report.Targets
/-!
# Target blocks and the rows of a report

The report on targets, the target blocks of a descriptor, the alias `All` and the markers are made separately, each
from the targets of the project.  They agree with each other, row by row and block by block
(`targetBlocks_agree_with_rows`): what a block shows of its target is a function of the target (`options_targetBlock`),
and all four keep to the order of the listed targets.
-/
namespace IdeExport

open Markup

namespace DescriptorTree

/-! ## One block -/

theorem options_settingsBlocks (settings : Option TargetSettings) :
    (settingsBlocks settings).filter (·.name = "Option".toList) = [] := by
  cases settings with
  | none => rfl
  | some s =>
    rw [settingsBlocks, linkerBlocks]
    split <;> rfl

theorem options_buildableBlock (graph : ProjectGraph) (settings : Option TargetSettings) (target : Target) :
    (buildableBlock graph settings target).childrenNamed "Option" =
      [outputOption (outputPath graph target),
       Element.option "working_dir" (workingDirectory graph.settings target),
       Element.option "object_output" "./",
       Element.option "type" (Text.ofNat target.typeCode),
       Element.option "compiler" (compilerToken graph.settings.compilerId)] := by
  rw [Element.childrenNamed, buildableBlock, List.filter_append, options_settingsBlocks, List.append_nil]
  rfl

theorem typeCode_of_not_isBuildable {target : Target} (h : target.kind.isBuildable = false) : target.typeCode = 4 := by
  unfold Target.typeCode
  cases hkind : target.kind with
  | utility | other => rfl
  | executable | staticLibrary | sharedLibrary | moduleLibrary | objectLibrary =>
    rw [hkind] at h
    cases h

/-- **The type and the output that a block shows.**  Only a buildable target has an output. -/
theorem options_targetBlock (graph : ProjectGraph) (artifacts : Artifacts) (target : Target) :
    (targetBlock graph artifacts target).optionValues "type" = [Text.ofNat target.typeCode] ∧
    (targetBlock graph artifacts target).optionValues "output" =
      if target.kind.isBuildable then [outputPath graph target] else [] := by
  unfold targetBlock Element.optionValues
  by_cases hkind : target.kind.isBuildable = true
  · rw [if_pos hkind, if_pos hkind, options_buildableBlock]
    exact ⟨rfl, rfl⟩
  · rw [if_neg hkind, if_neg hkind, typeCode_of_not_isBuildable (by simpa using hkind)]
    exact ⟨rfl, rfl⟩

theorem output_of_objectLibrary (graph : ProjectGraph) (artifacts : Artifacts) {target : Target}
    (hkind : target.kind = .objectLibrary) :
    (targetBlock graph artifacts target).optionValues "output" = [(ObjectMarker.ofTarget target).path] := by
  rw [(options_targetBlock graph artifacts target).2, outputPath, if_pos hkind, hkind]
  rfl

theorem output_of_mem_rebuildBlocks {settings : BuildSettings} {style : RefreshStyle} {e : Element}
    (h : e ∈ rebuildBlocks settings style) : e.optionValues "output" = [] := by
  unfold rebuildBlocks at h
  split at h
  · rw [List.mem_singleton.1 h]
    rfl
  · cases h

/-! ## Listed targets -/

theorem rows_eq_map_listedTargets (graph : ProjectGraph) :
    TargetRow.ofProject graph.project = (listedTargets graph).map TargetRow.ofTarget := rfl

theorem objectLibraries_listedTargets (graph : ProjectGraph) :
    (listedTargets graph).filter (·.kind = .objectLibrary) = graph.targets.filter (·.kind = .objectLibrary) := by
  rw [listedTargets, List.filter_filter]
  refine List.filter_congr (fun target _ => ?_)
  by_cases hkind : target.kind = .objectLibrary
  · simp [Target.isListed, hkind, TargetKind.isBuildable]
  · simp [hkind]

end DescriptorTree

namespace Descriptor

open DescriptorTree

variable (graph : ProjectGraph) (policy : ExportPolicy) (artifacts : Artifacts)

theorem targetBlocks_with_output :
    (ofArtifacts graph policy artifacts).targetBlocks.filter (fun block => block.optionValues "output" ≠ []) =
      ((listedTargets graph).filter (·.kind.isBuildable)).map (targetBlock graph artifacts) := by
  have hrebuild : (rebuildBlocks graph.settings policy.refresh).filter (fun block => block.optionValues "output" ≠ [])
      = [] := List.filter_eq_nil_iff.2 (fun e he => by simpa using output_of_mem_rebuildBlocks he)
  have hbuildable : ∀ target : Target,
      decide ((targetBlock graph artifacts target).optionValues "output" ≠ []) = target.kind.isBuildable := by
    intro target
    rw [(options_targetBlock graph artifacts target).2]
    cases target.kind.isBuildable <;> simp
  rw [targetBlocks_ofArtifacts, List.filter_append, hrebuild, List.nil_append, List.filter_map]
  exact congrArg _ (List.filter_congr fun target _ => hbuildable target)

theorem aliasTargets_eq_titles : (ofArtifacts graph policy artifacts).aliasTargets =
    [Text.terminated ";" (((ofArtifacts graph policy artifacts).targetBlocks.filter
      (fun block => block.optionValues "output" ≠ [])).flatMap (Element.valuesOf "title"))] := by
  rw [targetBlocks_with_output, aliasTargets_ofArtifacts, allTargets, List.flatMap_map]
  simp only [title_targetBlock]
  rw [← List.map_eq_flatMap]

theorem markers_eq_map : (ofArtifacts graph policy artifacts).markers =
    (graph.targets.filter (·.kind = .objectLibrary)).map ObjectMarker.ofTarget := by
  rw [← objectLibraries_listedTargets]
  rfl

theorem markers_eq_zip :
    (ofArtifacts graph policy artifacts).markers.map (fun marker => ([marker.target], [marker.path])) =
      (((TargetRow.ofProject graph.project).zip ((listedTargets graph).map (targetBlock graph artifacts))).filter
        (fun pair => pair.1.kind = .objectLibrary)).map
          (fun pair => (pair.2.valuesOf "title", pair.2.optionValues "output")) := by
  rw [rows_eq_map_listedTargets, List.zip_map', List.filter_map, List.map_map, markers_eq_map,
    ← objectLibraries_listedTargets, List.map_map]
  refine List.map_congr_left (fun target htarget => ?_)
  have hkind : target.kind = .objectLibrary := by simpa using (List.mem_filter.1 htarget).2
  show ([target.name], [(ObjectMarker.ofTarget target).path]) = _
  rw [Function.comp_apply, title_targetBlock, output_of_objectLibrary graph artifacts hkind]

/-- **The report on targets and the descriptor tell the same.**  After the block that the refresh style adds, there is
one block for each row, with its name and its type.  The alias holds the titles of the blocks that have an output, and
the markers are those of the object libraries, each at the path that its own block gives as the output. -/
theorem targetBlocks_agree_with_rows :
    ∃ blocks,
      (ofArtifacts graph policy artifacts).targetBlocks = rebuildBlocks graph.settings policy.refresh ++ blocks ∧
      blocks.map (fun block => (block.valuesOf "title", block.optionValues "type")) =
        (TargetRow.ofProject graph.project).map (fun row => ([row.name], [Text.ofNat row.typeCode])) ∧
      (ofArtifacts graph policy artifacts).aliasTargets =
        [Text.terminated ";" (((ofArtifacts graph policy artifacts).targetBlocks.filter
          (fun block => block.optionValues "output" ≠ [])).flatMap (Element.valuesOf "title"))] ∧
      (ofArtifacts graph policy artifacts).markers.map (·.target) =
        (graph.targets.filter (·.kind = .objectLibrary)).map (·.name) ∧
      (ofArtifacts graph policy artifacts).markers.map (fun marker => ([marker.target], [marker.path])) =
        (((TargetRow.ofProject graph.project).zip blocks).filter (fun pair => pair.1.kind = .objectLibrary)).map
          (fun pair => (pair.2.valuesOf "title", pair.2.optionValues "output")) := by
  refine ⟨_, targetBlocks_ofArtifacts graph policy artifacts, ?_, aliasTargets_eq_titles graph policy artifacts, ?_,
    markers_eq_zip graph policy artifacts⟩
  · rw [rows_eq_map_listedTargets, List.map_map, List.map_map]
    refine List.map_congr_left (fun target _ => ?_)
    show (_, _) = ([target.name], [Text.ofNat target.typeCode])
    rw [title_targetBlock, (options_targetBlock graph artifacts target).1]
  · rw [markers_eq_map, List.map_map]
    rfl

end Descriptor
end IdeExport
