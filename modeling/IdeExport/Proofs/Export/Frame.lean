import IdeExport.Proofs.Descriptor.Rows
import IdeExport.Proofs.Export.DryRun
import IdeExport.Proofs.FileTree.Effects
/-!
# What a real export leaves behind

An export that succeeds has written the files that its outcomes report, and has changed no other file: a project that is
abandoned and a marker that is passed over leave none behind.  Each project is finished in turn, whatever has become of
those before it (`run_frame`).
-/
namespace IdeExport

open Markup

namespace ExportOutcome

def markers : ExportOutcome → List Text
  | written _ _ markers _ => markers
  | abandoned _ _ | rendered _ _ _ => []

def paths : ExportOutcome → List Text
  | written _ path markers _ => path :: markers
  | abandoned _ _ | rendered _ _ _ => []

end ExportOutcome

namespace PreparedProject

/-- What has been written for a project that has this outcome: nothing, or the project file and after it some of the
markers, which are the ones that the outcome reports. -/
inductive Accounts (p : PreparedProject) : ExportOutcome → List (Text × Text) → Prop
  | abandoned (reason : Text) : Accounts p (.abandoned p.project reason) []
  | written {markers : List (Text × Text)} (hmarkers : markers.Sublist p.markerFiles) :
    Accounts p (.written p.project p.path (markers.map (·.1)) p.diagnostics) ((p.path, p.descriptor.content) :: markers)

theorem Accounts.paths {p : PreparedProject} {outcome : ExportOutcome} {files : List (Text × Text)}
    (h : p.Accounts outcome files) : outcome.paths = files.map (·.1) := by
  cases h <;> rfl

theorem Accounts.mem_markerFiles {p : PreparedProject} {outcome : ExportOutcome} {files : List (Text × Text)}
    (h : p.Accounts outcome files) {path : Text} (hpath : path ∈ outcome.markers) :
    path ∈ p.markerFiles.map (·.1) := by
  cases h with
  | abandoned => cases hpath
  | written hmarkers => exact (hmarkers.map _).subset hpath

theorem output_of_mem_markerFiles {policy : ExportPolicy} {probe : Text → Bool} {graph : ProjectGraph}
    {p : PreparedProject} (h : prepareProject policy probe graph = .ok p) {path : Text}
    (hpath : path ∈ p.markerFiles.map (·.1)) :
    ∃ target ∈ graph.targets, target.kind = .objectLibrary ∧
      ∃ block ∈ p.descriptor.targetBlocks, block.valuesOf "title" = [target.name] ∧
        ∃ output, block.optionValues "output" = [output] ∧ path = Path.under graph.project.outputDirectory output := by
  obtain ⟨ctx, hctx, rfl⟩ : ∃ ctx, prepared graph policy probe = .ok ctx ∧ p = .ofContext ctx := by
    unfold prepareProject at h
    split at h
    · rename_i ctx hctx
      exact ⟨ctx, hctx, (Except.ok.inj h).symm⟩
    · cases h
  obtain ⟨-, -, rfl⟩ := prepared_eq_ok_iff.1 hctx
  -- the markers are those of the object libraries, and these are among the listed targets
  have hfiles : (PreparedProject.ofContext (.passed graph policy probe)).markerFiles.map (·.1) =
      (Descriptor.markersOf graph).map (·.fullPath graph.project.outputDirectory) := by
    unfold markerFiles
    rw [List.map_map]
    rfl
  rw [hfiles] at hpath
  obtain ⟨marker, hmarker, rfl⟩ := List.mem_map.1 hpath
  obtain ⟨target, htarget, rfl⟩ := List.mem_map.1 hmarker
  obtain ⟨hlisted, hkind⟩ := List.mem_filter.1 htarget
  have hkind : target.kind = .objectLibrary := of_decide_eq_true hkind
  refine ⟨target, List.mem_of_mem_filter hlisted, hkind,
    DescriptorTree.targetBlock graph (.ofGraph graph policy probe) target, ?_, ?_, _, ?_, rfl⟩
  · show _ ∈ (Descriptor.ofArtifacts graph policy (.ofGraph graph policy probe)).targetBlocks
    rw [Descriptor.targetBlocks_ofArtifacts]
    exact List.mem_append_right _ (List.mem_map_of_mem hlisted)
  · exact DescriptorTree.title_targetBlock graph _ target
  · exact DescriptorTree.output_of_objectLibrary graph _ hkind

end PreparedProject

/-! ## Writing -/

open FileTree (Wrote)

theorem writeMarkers_cons (tree : FileTree) (path content : Text) (files : List (Text × Text)) :
    writeMarkers tree ((path, content) :: files) =
      match (tree.write {} path content).1 with
      | .ok _ => (path :: (writeMarkers (tree.write {} path content).2 files).1,
          (writeMarkers (tree.write {} path content).2 files).2)
      | .error _ => writeMarkers (tree.write {} path content).2 files := by
  rw [writeMarkers]
  obtain ⟨result, after⟩ := tree.write {} path content
  cases result <;> rfl

theorem wrote_writeMarkers : ∀ (files : List (Text × Text)) (tree : FileTree), ∃ written : List (Text × Text),
    written.Sublist files ∧ (writeMarkers tree files).1 = written.map (·.1) ∧
      Wrote tree (writeMarkers tree files).2 written
  | [], tree => ⟨[], .slnil, rfl, .refl tree⟩
  | (path, content) :: files, tree => by
    have hwrite := FileTree.wrote_write tree {} path content
    obtain ⟨written, hsub, hpaths, hwrote⟩ := wrote_writeMarkers files (tree.write {} path content).2
    rw [writeMarkers_cons]
    cases hresult : (tree.write {} path content).1 with
    | error e =>
      rw [hresult] at hwrite
      exact ⟨written, hsub.cons _, hpaths, hwrite.trans hwrote⟩
    | ok result =>
      rw [hresult, FileTree.write_eq_ok rfl hresult] at hwrite
      exact ⟨(path, content) :: written, hsub.cons_cons _, by rw [hpaths]; rfl, hwrite.trans hwrote⟩

theorem writeProject_eq (tree : FileTree) (p : PreparedProject) :
    writeProject tree p =
      match (tree.write .existingDirectory p.path p.descriptor.content).1 with
      | .error e => (.abandoned p.project e.message, (tree.write .existingDirectory p.path p.descriptor.content).2)
      | .ok _ =>
        (.written p.project p.path
            (writeMarkers (tree.write .existingDirectory p.path p.descriptor.content).2 p.markerFiles).1 p.diagnostics,
          (writeMarkers (tree.write .existingDirectory p.path p.descriptor.content).2 p.markerFiles).2) := by
  rw [writeProject]
  obtain ⟨result, after⟩ := tree.write .existingDirectory p.path p.descriptor.content
  cases result <;> rfl

theorem wrote_writeProject (tree : FileTree) (p : PreparedProject) :
    ∃ files, p.Accounts (writeProject tree p).1 files ∧ Wrote tree (writeProject tree p).2 files := by
  have hwrite := FileTree.wrote_write tree .existingDirectory p.path p.descriptor.content
  rw [writeProject_eq]
  cases hresult : (tree.write .existingDirectory p.path p.descriptor.content).1 with
  | error e =>
    rw [hresult] at hwrite
    exact ⟨[], .abandoned _, hwrite⟩
  | ok result =>
    rw [hresult, FileTree.write_eq_ok rfl hresult] at hwrite
    obtain ⟨markers, hsub, hpaths, hwrote⟩ :=
      wrote_writeMarkers p.markerFiles (tree.write .existingDirectory p.path p.descriptor.content).2
    refine ⟨(p.path, p.descriptor.content) :: markers, ?_, hwrite.trans hwrote⟩
    simp only [hpaths]
    exact .written hsub

namespace Exporter

variable (exporter : Exporter)

/-- The effects of finishing projects one after another, and what accounts for each of them. -/
theorem wrote_finishAll : ∀ (ps : List PreparedProject) (tree : FileTree), ∃ files : List (List (Text × Text)),
    files.flatten.map (·.1) = ((exporter.withDry false).finishAll tree ps).1.flatMap (·.paths) ∧
    Wrote tree ((exporter.withDry false).finishAll tree ps).2 files.flatten ∧
    ∀ (i : Nat) (p : PreparedProject), ps[i]? = some p → ∃ outcome written,
      ((exporter.withDry false).finishAll tree ps).1[i]? = some outcome ∧ files[i]? = some written ∧
        p.Accounts outcome written
  | [], tree => ⟨[], rfl, .refl tree, fun _ _ h => by cases h⟩
  | p :: ps, tree => by
    obtain ⟨written, haccounts, hwrote⟩ := wrote_writeProject tree p
    obtain ⟨files, hpaths, hrest, hall⟩ := wrote_finishAll ps (writeProject tree p).2
    refine ⟨written :: files, ?_, hwrote.trans hrest, fun i q hq => ?_⟩
    · have hfinished : ((exporter.withDry false).finishAll tree (p :: ps)).1 =
          (writeProject tree p).1 :: ((exporter.withDry false).finishAll (writeProject tree p).2 ps).1 := rfl
      rw [List.flatten_cons, List.map_append, hpaths, hfinished, List.flatMap_cons, haccounts.paths]
    · cases i with
      | zero =>
        cases hq
        exact ⟨_, written, rfl, rfl, haccounts⟩
      | succ i => exact hall i q hq

/-- A real run that succeeds: the effects of all projects, and what accounts for each of them. -/
theorem exists_accounts (tree : FileTree) (graphs : List ProjectGraph) {outcomes : List ExportOutcome}
    (h : ((exporter.withDry false).run tree graphs).1 = .ok outcomes) :
    outcomes.length = graphs.length ∧
    ∃ files : List (List (Text × Text)), files.flatten.map (·.1) = outcomes.flatMap (·.paths) ∧
      Wrote tree ((exporter.withDry false).run tree graphs).2 files.flatten ∧
      ∀ i graph, graphs[i]? = some graph → ∃ p outcome written,
        prepareProject exporter.policy (exporter.probe tree) graph = .ok p ∧
        outcomes[i]? = some outcome ∧ files[i]? = some written ∧ p.Accounts outcome written ∧
        outcome = (writeProject ((exporter.withDry false).run tree (graphs.take i)).2 p).1 := by
  cases hprepared : prepareProjects exporter.policy (exporter.probe tree) graphs with
  | error failure =>
    rw [run_of_failed (exporter.withDry false) hprepared] at h
    cases h
  | ok ps =>
    obtain ⟨files, hpaths, hwrote, haccounts⟩ := wrote_finishAll exporter ps tree
    have hreal := run_of_prepared (exporter.withDry false) hprepared
    rw [hreal] at h ⊢
    obtain rfl := Except.ok.inj h
    refine ⟨by rw [length_finishAll, (prepareProjects_eq_ok_iff.1 hprepared).length_eq], files, hpaths, hwrote, ?_⟩
    intro i graph hgraph
    obtain ⟨p, hp, hprepare⟩ := exists_prepareProject hprepared hgraph
    obtain ⟨outcome, written, houtcome, hwritten, hproject⟩ := haccounts i p hp
    have hfinished := (finishAll_getElem? (exporter.withDry false) ps tree hp).1
    rw [houtcome] at hfinished
    refine ⟨p, outcome, written, hprepare, houtcome, hwritten, hproject, ?_⟩
    rw [run_take (exporter.withDry false) hprepared]
    exact Option.some.inj hfinished

/-- **An export changes the files that it reports, and no others.**  The files it has written, project by project, are
those at the reported paths.  Every location holds after the export the last of these that lies there, or else what it
held before, so that no file is changed, added or removed anywhere else.  There is one outcome for each project, in
order: what becomes of the project in the tree that those before it leave, even if they have been abandoned.  It accounts
for what has been written, and the markers that it reports are at the paths that the descriptor gives as the outputs of
object libraries. -/
theorem run_frame (tree : FileTree) (graphs : List ProjectGraph) {outcomes : List ExportOutcome}
    (h : ((exporter.withDry false).run tree graphs).1 = .ok outcomes) :
    let after := ((exporter.withDry false).run tree graphs).2
    (∀ location, (∀ path ∈ outcomes.flatMap (·.paths), after.locate path ≠ some location) →
      after.fileAt? location = tree.fileAt? location) ∧
    (∀ path ∈ outcomes.flatMap (·.paths), ∃ location, after.locate path = some location ∧
      (after.fileAt? location).isSome = true) ∧
    (∀ location, (tree.fileAt? location).isSome = true → (after.fileAt? location).isSome = true) ∧
    outcomes.length = graphs.length ∧
    ∃ files : List (List (Text × Text)), files.flatten.map (·.1) = outcomes.flatMap (·.paths) ∧
      Wrote tree after files.flatten ∧
      ∀ i graph, graphs[i]? = some graph → ∃ p outcome written,
        prepareProject exporter.policy (exporter.probe tree) graph = .ok p ∧
        outcomes[i]? = some outcome ∧ files[i]? = some written ∧ p.Accounts outcome written ∧
        outcome = (writeProject ((exporter.withDry false).run tree (graphs.take i)).2 p).1 ∧
        ∀ path ∈ outcome.markers, ∃ target ∈ graph.targets, target.kind = .objectLibrary ∧
          ∃ block ∈ p.descriptor.targetBlocks, block.valuesOf "title" = [target.name] ∧
            ∃ output, block.optionValues "output" = [output] ∧
              path = Path.under graph.project.outputDirectory output := by
  intro after
  obtain ⟨hlength, files, hpaths, hwrote, haccounts⟩ := exists_accounts exporter tree graphs h
  have hreported : ∀ path, path ∈ outcomes.flatMap (·.paths) ↔ ∃ file ∈ files.flatten, file.1 = path := by
    intro path
    rw [← hpaths, List.mem_map]
  refine ⟨fun location hne => ?_, fun path hpath => ?_, fun location => hwrote.isSome_of_isSome, hlength,
    files, hpaths, hwrote, fun i graph hgraph => ?_⟩
  · exact hwrote.fileAt?_of_ne fun file hfile => hne file.1 ((hreported file.1).2 ⟨file, hfile, rfl⟩)
  · obtain ⟨file, hfile, rfl⟩ := (hreported path).1 hpath
    obtain ⟨location, hlocation⟩ := hwrote.located file hfile
    exact ⟨location, hlocation, hwrote.isSome_fileAt? hfile hlocation⟩
  · obtain ⟨p, outcome, written, hp, houtcome, hwritten, hproject, hfinished⟩ := haccounts i graph hgraph
    refine ⟨p, outcome, written, hp, houtcome, hwritten, hproject, hfinished, fun path hpath => ?_⟩
    exact PreparedProject.output_of_mem_markerFiles hp (hproject.mem_markerFiles hpath)

/-- Two projects with object libraries.  The output directory of the first is missing.  Of the markers of the second, one
goes where a file is in the way. -/
def blockedMarkers : List ProjectGraph :=
  [{ settings := .complete
     project := {
      name := "gone"
      outputDirectory := "/missing"
      targets := [{ name := "lost", kind := .objectLibrary, buildDirectory := "/b" }] } },
   { settings := .complete
     project := {
      name := "kept"
      outputDirectory := "/b"
      targets := [
        { name := "blocked", kind := .objectLibrary, buildDirectory := "/b/notes" },
        { name := "objs", kind := .objectLibrary, buildDirectory := "/b" }] } }]

def notesTree : FileTree := { entries := [(["b"], .directory), (["b", "notes"], .file "mine")] }

theorem run_frame_blockedMarkers :
    let run := (withDry { policy := {} } false).run notesTree blockedMarkers
    ∃ outcomes, run.1 = .ok outcomes ∧
      outcomes.flatMap (·.paths) = ["/b/kept.cbp", "/b/CMakeFiles/objs.dir/objs.objlib"] ∧
      run.2.fileAt? ["b", "notes"] = some "mine".toList := by
  intro run
  have hrun : ∃ outcomes, run.1 = .ok outcomes ∧
      outcomes.flatMap (·.paths) = ["/b/kept.cbp", "/b/CMakeFiles/objs.dir/objs.objlib"] := ⟨_, rfl, by decide⟩
  obtain ⟨outcomes, hok, hpaths⟩ := hrun
  refine ⟨outcomes, hok, hpaths, ?_⟩
  have hframe := (run_frame { policy := {} } notesTree blockedMarkers hok).1 ["b", "notes"]
  rw [hframe (by rw [hpaths]; decide)]
  rfl

end Exporter
end IdeExport
