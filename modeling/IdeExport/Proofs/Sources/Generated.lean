import IdeExport.Pipeline.Phases
import IdeExport.Proofs.Pipeline.Prepared
import IdeExport.Proofs.Sources.Headers
/-!
# Generated files

Classification leaves out what a target marks as generated, and with it the mark.  The search for headers goes by names
and by what exists, so a generated header that exists beside a paired file is listed after all.  There is no other way
for a generated file to be listed (`generated_mem_other_iff`).
-/
namespace IdeExport

/-- Some target lists the path, and every target that does marks it as generated. -/
def ProjectGraph.IsGeneratedFile (graph : ProjectGraph) (path : Text) : Prop :=
  (∃ target ∈ graph.targets, ∃ source ∈ target.sources, source.path = path) ∧
    ∀ target ∈ graph.targets, ∀ source ∈ target.sources, source.path = path → source.generated = true

namespace Sources

variable {graph : ProjectGraph} {path : Text}

theorem not_listedAs_of_isGeneratedFile (h : graph.IsGeneratedFile path) (extensions : List Text) (paired : Bool) :
    ¬ ListedAs extensions paired (listings graph.targets) path := by
  rintro ⟨listing, hlisting, -, hpath⟩
  obtain ⟨target, htarget, -, -, hsource, hkept⟩ := mem_listings.1 hlisting
  have hgenerated := h.2 target htarget listing.2 hsource hpath
  rw [hkept] at hgenerated
  cases hgenerated

def classified (ctx : Context) : Sources := (Phase.classify.run ctx).1.artifacts.sources

/-- **A generated file is never paired, and it is listed exactly if it is found as a header**: if among the headers
that some paired file may have it is the first that is listed otherwise or exists. -/
theorem generated_mem_other_iff (ctx : Context) (h : ctx.graph.IsGeneratedFile path) :
    path ∉ (classified ctx).paired.map (·.1) ∧
    (path ∈ (classified ctx).other ↔
      ∃ file ∈ (classified ctx).paired.map (·.1),
        firstHeader ctx.graph.settings.headerExtensions
          (classify ctx.graph.settings.sourceExtensions ctx.graph.targets).other ctx.probe file = some path) := by
  have hlisted := not_listedAs_of_isGeneratedFile h ctx.graph.settings.sourceExtensions
  have hpaired : path ∉ (classify ctx.graph.settings.sourceExtensions ctx.graph.targets).paired.map (·.1) :=
    fun hmem => hlisted true (mem_paired_classify.1 hmem)
  have hother : path ∉ (classify ctx.graph.settings.sourceExtensions ctx.graph.targets).other :=
    fun hmem => hlisted false (mem_other_classify.1 hmem)
  exact ⟨hpaired, mem_other_discoverHeaders_iff.trans (or_iff_right hother)⟩

/-- A program of a source and of a header that the build writes beside it. -/
def generatedHeaderGraph : ProjectGraph where
  settings := .complete
  project :=
    { name := "demo", outputDirectory := "/b",
      targets :=
        [{ name := "app", kind := .executable, buildDirectory := "/b",
           sources := [{ path := "/s/a.c", language := some .c }, { path := "/s/a.h", generated := true }] }] }

-- the header has been written already
def generatedHeaderContext : Context := { graph := generatedHeaderGraph, probe := fun path => path = "/s/a.h" }

theorem isGeneratedFile_header : generatedHeaderGraph.IsGeneratedFile "/s/a.h" := by
  unfold ProjectGraph.IsGeneratedFile
  decide

theorem not_forall_generated_not_listed :
    ¬ ∀ (ctx : Context) (path : Text), ctx.graph.IsGeneratedFile path →
      path ∉ (classified ctx).paired.map (·.1) ∧ path ∉ (classified ctx).other := by
  intro h
  have hother := (h generatedHeaderContext "/s/a.h" isGeneratedFile_header).2
  revert hother
  decide

theorem generated_mem_other_iff_header :
    generatedHeaderGraph.IsGeneratedFile "/s/a.h" ∧ "/s/a.h".toList ∈ (classified generatedHeaderContext).other :=
  ⟨isGeneratedFile_header,
    (generated_mem_other_iff generatedHeaderContext isGeneratedFile_header).2.2 ⟨"/s/a.c", by decide, by decide⟩⟩

end Sources
end IdeExport
