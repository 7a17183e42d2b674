import IdeExport.CommandLine.Command
import IdeExport.Descriptor.Basic
import IdeExport.Proofs.Path.Pieces
import IdeExport.Proofs.Snapshot.WellFormed
/-!
# Where the descriptors of a snapshot go

A valid snapshot gives its projects different names without separators and its policy an extension without a slash.  So
every descriptor goes right into the output directory of its project, and no two go to one place, whatever the
directories are (`descriptorPaths_apart`).
-/
namespace IdeExport
namespace Snapshot

def fileNameOf (s : Snapshot) (graph : ProjectGraph) : Text := graph.name ++ "." ++ s.policy.extension

/-- Where the descriptor of a project goes after a command line has had its say. -/
def descriptorPath (s : Snapshot) (overrides : CommandLine.PolicyOverrides) (artifacts : Artifacts)
    (graph : ProjectGraph) : Text :=
  (Descriptor.ofArtifacts graph (overrides.apply s.policy) artifacts).path graph.project.outputDirectory

variable {s : Snapshot} (h : s.WellFormed) {graph : ProjectGraph} (hgraph : graph ∈ s.graphs)

theorem descriptorPath_eq (s : Snapshot) (overrides : CommandLine.PolicyOverrides) (artifacts : Artifacts)
    (graph : ProjectGraph) : s.descriptorPath overrides artifacts graph =
      Path.under graph.project.outputDirectory (s.fileNameOf graph) := rfl

include h hgraph

theorem wellFormed_project_of_mem_graphs : graph.project.WellFormed := by
  obtain ⟨project, hproject, rfl⟩ := List.mem_map.1 hgraph
  exact h.projects project hproject

theorem slash_not_mem_fileNameOf : '/' ∉ s.fileNameOf graph := by
  have hname := (wellFormed_project_of_mem_graphs h hgraph).noSlash
  have hextension := h.noSlash
  simp only [fileNameOf, ProjectGraph.name, List.mem_append, not_or]
  exact ⟨⟨hname, by decide⟩, hextension⟩

/-- A file name has at least three characters, so it is neither a dot nor a step up. -/
theorem two_lt_length_fileNameOf : 2 < (s.fileNameOf graph).length := by
  have hname := List.length_pos_iff.2 (wellFormed_project_of_mem_graphs h hgraph).name
  have hextension := List.length_pos_iff.2 h.extension
  simp only [fileNameOf, ProjectGraph.name, List.length_append]
  have hdot : (".".toList : Text).length = 1 := rfl
  omega

theorem isComponent_fileNameOf : Path.isComponent (s.fileNameOf graph) = true := by
  have hlength := two_lt_length_fileNameOf h hgraph
  have hempty : s.fileNameOf graph ≠ [] := fun heq => absurd hlength (by rw [heq]; decide)
  have hdot : s.fileNameOf graph ≠ ['.'] := fun heq => absurd hlength (by rw [heq]; decide)
  simp [Path.isComponent, hempty, hdot]

theorem fileNameOf_ne_stepUp : s.fileNameOf graph ≠ Path.stepUp := by
  intro heq
  have hlength := two_lt_length_fileNameOf h hgraph
  rw [heq] at hlength
  exact absurd hlength (by decide)

theorem components_descriptorPath (overrides : CommandLine.PolicyOverrides) (artifacts : Artifacts) :
    Path.components (s.descriptorPath overrides artifacts graph) =
      Path.components graph.project.outputDirectory ++ [s.fileNameOf graph] := by
  have hdirectory := (wellFormed_project_of_mem_graphs h hgraph).outputDirectory
  rw [descriptorPath_eq]
  exact Path.components_under hdirectory (isComponent_fileNameOf h hgraph) (slash_not_mem_fileNameOf h hgraph)

omit h hgraph

theorem pairwise_fileNameOf (h : s.WellFormed) :
    s.graphs.Pairwise (fun graph other => s.fileNameOf graph ≠ s.fileNameOf other) := by
  have hnames : s.graphs.Pairwise (fun graph other => graph.name ≠ other.name) := by
    rw [graphs, ProjectGraph.ofBuild, List.pairwise_map]
    exact List.pairwise_map.1 h.names
  refine hnames.imp fun hne heq => hne ?_
  simp only [fileNameOf, List.append_assoc] at heq
  exact List.append_cancel_right heq

/-- **Every project has its descriptor to itself, right in its output directory.**  The directory of a descriptor is the
output directory and its name is that of the project with the extension, which is neither a dot nor a step up.  The
paths of two descriptors have different components. -/
theorem descriptorPaths_apart {source : Text} (h : validate source s = .ok ())
    (overrides : CommandLine.PolicyOverrides) (artifacts : ProjectGraph → Artifacts) :
    (∀ graph ∈ s.graphs,
      (∃ parent, Path.parent (s.descriptorPath overrides (artifacts graph) graph) = some parent ∧
        Path.Same parent graph.project.outputDirectory) ∧
      Path.fileName (s.descriptorPath overrides (artifacts graph) graph) = some (s.fileNameOf graph) ∧
      '/' ∉ s.fileNameOf graph ∧ s.fileNameOf graph ≠ "." ∧ s.fileNameOf graph ≠ "..") ∧
    s.graphs.Pairwise (fun graph other =>
      Path.components (s.descriptorPath overrides (artifacts graph) graph) ≠
        Path.components (s.descriptorPath overrides (artifacts other) other)) := by
  have hwell : s.WellFormed := (isValid_iff_wellFormed s).1 (validate_eq_ok_iff.1 h)
  constructor
  · intro graph hgraph
    have hdirectory := (wellFormed_project_of_mem_graphs hwell hgraph).outputDirectory
    have hcomponent := isComponent_fileNameOf hwell hgraph
    have hslash := slash_not_mem_fileNameOf hwell hgraph
    have hup := fileNameOf_ne_stepUp hwell hgraph
    have hdot : s.fileNameOf graph ≠ "." := fun heq => absurd hcomponent (by rw [heq]; decide)
    rw [descriptorPath_eq]
    exact ⟨Path.parent_under hdirectory hcomponent hslash, Path.fileName_under hdirectory hcomponent hslash hup, hslash,
      hdot, hup⟩
  · have hfiles := pairwise_fileNameOf hwell
    refine hfiles.imp_of_mem fun {graph other} hgraph hother hne heq => hne ?_
    -- the file name is the last component
    rw [components_descriptorPath hwell hgraph, components_descriptorPath hwell hother] at heq
    have hlast := congrArg List.getLast? heq
    rw [List.getLast?_concat, List.getLast?_concat] at hlast
    exact Option.some.inj hlast

/-- Projects whose output directories are one directory in two spellings, and names that look like extensions. -/
def sharedDirectory : Snapshot where
  build := { homeDirectory := "/s", homeOutputDirectory := "/b" }
  policy := { extension := "cbp" }
  projects := [{ name := ".", outputDirectory := "/b//." }, { name := "..cbp", outputDirectory := "/b/" }]

theorem descriptorPaths_apart_sharedDirectory :
    validate [] sharedDirectory = .ok () ∧
    sharedDirectory.graphs.Pairwise (fun graph other =>
      Path.components (sharedDirectory.descriptorPath { noUnitTargets := true } {} graph) ≠
        Path.components (sharedDirectory.descriptorPath { noUnitTargets := true } {} other)) ∧
    ∀ graph ∈ sharedDirectory.graphs,
      Path.fileName (sharedDirectory.descriptorPath { noUnitTargets := true } {} graph) =
        some (sharedDirectory.fileNameOf graph) := by
  have hvalid : validate [] sharedDirectory = .ok () := by decide
  have hapart := descriptorPaths_apart hvalid { noUnitTargets := true } (fun _ => {})
  exact ⟨hvalid, hapart.2, fun graph hgraph => (hapart.1 graph hgraph).2.1⟩

end Snapshot
end IdeExport
