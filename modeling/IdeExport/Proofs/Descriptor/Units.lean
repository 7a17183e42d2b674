import IdeExport.Proofs.Descriptor.View
import IdeExport.Proofs.ListFiles.Placement
import IdeExport.Proofs.Pipeline.Prepared
import IdeExport.Proofs.Sources.Classification
import Mathlib.Data.List.Nodup
/-!
# Units and their files

A descriptor lists three groups of files: paired ones, other ones and list files.  The first two are sets.  List files
are not: one that a project names twice has two units, and none of them is compared with the sources.  So no file is
listed twice exactly when the groups share no path and no list file is placed twice (`nodup_fileNames_iff`).
-/
namespace IdeExport

/-! ## Sources -/

namespace ProjectGraph

def IsPairedFile (graph : ProjectGraph) (path : Text) : Prop :=
  Sources.ListedAs graph.settings.sourceExtensions true (Sources.listings graph.targets) path

/-- A target lists the path as a source that is not paired, or a search for headers finds it. -/
def IsOtherFile (graph : ProjectGraph) (probe : Text → Bool) (path : Text) : Prop :=
  Sources.ListedAs graph.settings.sourceExtensions false (Sources.listings graph.targets) path ∨
    path ∈ (Sources.classify graph.settings.sourceExtensions graph.targets).foundHeaders
      graph.settings.headerExtensions probe

end ProjectGraph

namespace Descriptor

variable {graph : ProjectGraph} {policy : ExportPolicy} {probe : Text → Bool} {ctx : Context}

theorem mem_paired_iff (h : prepared graph policy probe = .ok ctx) {path : Text} :
    path ∈ ctx.artifacts.sources.paired.map (·.1) ↔ graph.IsPairedFile path := by
  obtain ⟨-, -, rfl⟩ := prepared_eq_ok_iff.1 h
  exact Sources.mem_paired_classify

theorem mem_other_iff (h : prepared graph policy probe = .ok ctx) {path : Text} :
    path ∈ ctx.artifacts.sources.other ↔ graph.IsOtherFile probe path := by
  obtain ⟨-, -, rfl⟩ := prepared_eq_ok_iff.1 h
  exact Sources.mem_other_discoverHeaders.trans (or_congr_left Sources.mem_other_classify)

theorem sorted_sources (h : prepared graph policy probe = .ok ctx) : ctx.artifacts.sources.Sorted := by
  obtain ⟨-, -, rfl⟩ := prepared_eq_ok_iff.1 h
  exact Sources.sorted_discoverHeaders (Sources.sorted_classify _ _) _ _

theorem fileNames_of_prepared (h : prepared graph policy probe = .ok ctx) :
    (ofArtifacts graph policy ctx.artifacts).fileNames =
      ctx.artifacts.sources.paired.map (·.1) ++ ctx.artifacts.sources.other ++
        ListFiles.listedPaths graph.settings policy.rootListFiles graph.project.listFiles := by
  obtain ⟨-, -, rfl⟩ := prepared_eq_ok_iff.1 h
  exact fileNames_ofArtifacts _ _ _

/-- **A descriptor lists no file twice** exactly when no path is both a paired and another file, no list file is placed
twice, and no list file is placed where a source is.  Paired files are never repeated, and other files are not. -/
theorem nodup_fileNames_iff (h : prepared graph policy probe = .ok ctx) :
    (ctx.artifacts.sources.paired.map (·.1)).Nodup ∧ ctx.artifacts.sources.other.Nodup ∧
    ((ofArtifacts graph policy ctx.artifacts).fileNames.Nodup ↔
      (∀ path, graph.IsPairedFile path → ¬ graph.IsOtherFile probe path) ∧
      (ListFiles.placements graph.settings policy.rootListFiles graph.project.listFiles).Nodup ∧
      ∀ placement ∈ ListFiles.placements graph.settings policy.rootListFiles graph.project.listFiles,
        ¬ graph.IsPairedFile (ListFiles.placedPath graph.settings placement) ∧
        ¬ graph.IsOtherFile probe (ListFiles.placedPath graph.settings placement)) := by
  have hsorted := sorted_sources h
  have hpaired := SortedList.nodup_of_pairwise_lt hsorted.paired
  have hother := SortedList.nodup_of_pairwise_lt hsorted.other
  refine ⟨hpaired, hother, ?_⟩
  rw [fileNames_of_prepared h, List.nodup_append', List.nodup_append', ListFiles.nodup_listedPaths_iff]
  simp only [List.Disjoint, List.mem_append, mem_paired_iff h, mem_other_iff h, ListFiles.mem_listedPaths]
  constructor
  · rintro ⟨⟨-, -, hdisjoint⟩, hplacements, hapart⟩
    refine ⟨fun path hp ho => hdisjoint hp ho, hplacements, fun placement hplacement => ⟨fun hp => ?_, fun ho => ?_⟩⟩
    · exact hapart (Or.inl hp) ⟨placement, hplacement, rfl⟩
    · exact hapart (Or.inr ho) ⟨placement, hplacement, rfl⟩
  · rintro ⟨hdisjoint, hplacements, hapart⟩
    refine ⟨⟨hpaired, hother, fun path hp ho => hdisjoint path hp ho⟩, hplacements, ?_⟩
    rintro path hsource ⟨placement, hplacement, rfl⟩
    obtain ⟨hnotPaired, hnotOther⟩ := hapart placement hplacement
    exact hsource.elim hnotPaired hnotOther

def graphWithListFiles (listFiles : List Text) : ProjectGraph where
  settings := .complete
  project :=
    { name := "demo", outputDirectory := "/b", listFiles,
      targets :=
        [{ name := "app", kind := .executable, buildDirectory := "/b",
           sources := [{ path := "/s/a.c", language := some .c }, { path := "/s/a.txt" }] }] }

theorem prepared_graphWithListFiles (listFiles : List Text) :
    prepared (graphWithListFiles listFiles) {} (fun _ => false) =
      .ok (.passed (graphWithListFiles listFiles) {} fun _ => false) :=
  prepared_eq_ok_iff.2 ⟨rfl, rfl, rfl⟩

theorem not_forall_nodup_fileNames :
    ¬ ∀ (graph : ProjectGraph) (policy : ExportPolicy) (probe : Text → Bool) (ctx : Context),
      prepared graph policy probe = .ok ctx → (ofArtifacts graph policy ctx.artifacts).fileNames.Nodup := by
  intro h
  have hprepared := prepared_graphWithListFiles ["/s/lib/CMakeLists.txt", "/s/lib/CMakeLists.txt"]
  have hnodup := h _ _ _ _ hprepared
  rw [fileNames_of_prepared hprepared] at hnodup
  have hplacements := ListFiles.nodup_listedPaths_iff.1 (List.nodup_append'.1 hnodup).2.1
  revert hplacements
  decide

theorem nodup_fileNames_graphWithListFiles :
    (ofArtifacts (graphWithListFiles ["/s/lib/CMakeLists.txt"]) {}
      (Context.passed (graphWithListFiles ["/s/lib/CMakeLists.txt"]) {} fun _ => false).artifacts).fileNames.Nodup := by
  have hprepared := prepared_graphWithListFiles ["/s/lib/CMakeLists.txt"]
  refine (nodup_fileNames_iff hprepared).2.2.2 ⟨fun path hpaired hother => ?_, by decide, ?_⟩
  · have hapart : ∀ path ∈ ["/s/a.c".toList], path ∉ ["/s/a.txt".toList] := by decide
    exact hapart path ((mem_paired_iff hprepared).2 hpaired) ((mem_other_iff hprepared).2 hother)
  · intro placement hplacement
    rw [← mem_paired_iff hprepared, ← mem_other_iff hprepared]
    revert placement
    decide

end Descriptor
end IdeExport
