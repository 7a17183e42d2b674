import IdeExport.Proofs.Export.Frame
import IdeExport.Proofs.Export.Verdict
import IdeExport.Proofs.FileTree.Creating
import IdeExport.Snapshot.Reading
/-!
# The order of the projects

The projects of an export share the tree that they are written into.  A marker creates the directories that are missing
on the way to it and a project file does not, so a project may be written or abandoned for what another one has created
before (`not_forall_run_perm`).  If no project creates a directory where another one would notice it, every project
fares in every order as it does when it is exported alone (`run_perm`).
-/
namespace IdeExport

open FileTree (Extends newDirectories mem_newDirectories_iff way placeOf)

/-! ## Writing one project -/

namespace PreparedProject

def places (p : PreparedProject) (working : Location) : List Location :=
  (p.path :: p.markerFiles.map (·.1)).map (placeOf working)

/-- The locations where a project would notice a directory: the working directory, the way to its project file, and the
places of its files. -/
def watched (p : PreparedProject) (working : Location) : List Location :=
  working :: (way working p.path ++ p.places working)

theorem Accounts.mem_places {p : PreparedProject} {outcome : ExportOutcome} {files : List (Text × Text)}
    (h : p.Accounts outcome files) (working : Location) {file : Text × Text} (hfile : file ∈ files) :
    placeOf working file.1 ∈ p.places working := by
  apply List.mem_map_of_mem
  cases h with
  | abandoned => cases hfile
  | written hmarkers =>
    rcases List.mem_cons.1 hfile with rfl | hfile
    · exact List.mem_cons_self
    · exact List.mem_cons_of_mem _ (List.mem_map_of_mem (hmarkers.subset hfile))

end PreparedProject

/-- An outcome up to the reason why a project is abandoned. -/
def ExportOutcome.withoutReason : ExportOutcome → ExportOutcome
  | .abandoned project _ => .abandoned project []
  | outcome => outcome

variable {tree larger : FileTree} {directories files : Location → Prop}

theorem writeMarkers_extends : ∀ (markers : List (Text × Text)) {tree larger : FileTree},
    Extends tree larger directories files → ¬directories tree.working →
    (∀ marker ∈ markers, ¬directories (placeOf tree.working marker.1)) →
    (∀ location, files location → (writeMarkers tree markers).2.entryAt? location ≠ some .directory) →
    (writeMarkers larger markers).1 = (writeMarkers tree markers).1 ∧
      Extends (writeMarkers tree markers).2 (writeMarkers larger markers).2 directories files
  | [], _, _, h, _, _, _ => ⟨rfl, h⟩
  | (path, content) :: markers, tree, larger, h, hworking, hplaces, hfiles => by
    obtain ⟨hplace, hrest⟩ := List.forall_mem_cons.1 hplaces
    have hsame : (tree.write {} path content).2.working = tree.working := (FileTree.wrote_write tree {} path content).working
    have hafter : (writeMarkers tree ((path, content) :: markers)).2 =
        (writeMarkers (tree.write {} path content).2 markers).2 := by
      rw [writeMarkers_cons]
      split <;> rfl
    rw [hafter] at hfiles
    obtain ⟨written, -, -, hkeeps⟩ := wrote_writeMarkers markers (tree.write {} path content).2
    obtain ⟨hresult, hextends⟩ := h.writeThrough hworking hplace fun location hfile hdirectory =>
      hfiles location hfile (hkeeps.directories location hdirectory)
    obtain ⟨hmarkers, hmarkersExtends⟩ :=
      writeMarkers_extends markers hextends (hsame ▸ hworking) (hsame ▸ hrest) hfiles
    have hwrite : (larger.write {} path content).1 = (tree.write {} path content).1 := hresult
    rw [writeMarkers_cons, writeMarkers_cons, hwrite]
    cases (tree.write {} path content).1 with
    | ok result => exact ⟨congrArg (path :: ·) hmarkers, hmarkersExtends⟩
    | error error => exact ⟨hmarkers, hmarkersExtends⟩

/-- **What becomes of a project is the same in a larger tree**, if it notices none of the additional directories and no
additional file is where it would create a directory. -/
theorem writeProject_extends {p : PreparedProject} (h : Extends tree larger directories files)
    (hwatched : ∀ location ∈ p.watched tree.working, ¬directories location)
    (hfiles : ∀ location, files location → (writeProject tree p).2.entryAt? location ≠ some .directory) :
    (writeProject larger p).1 = (writeProject tree p).1 ∧
      Extends (writeProject tree p).2 (writeProject larger p).2 directories files := by
  have hworking : ¬directories tree.working := hwatched _ List.mem_cons_self
  have hway : ∀ d ∈ way tree.working p.path, ¬directories d := fun d hd =>
    hwatched d (List.mem_cons_of_mem _ (List.mem_append_left _ hd))
  have hplaces : ∀ d ∈ p.places tree.working, ¬directories d := fun d hd =>
    hwatched d (List.mem_cons_of_mem _ (List.mem_append_right _ hd))
  have hdirectory : ∀ d ∈ way tree.working (FileTree.directoryOf p.path), ¬directories d := by
    intro d hd
    rcases FileTree.mem_way_of_mem_directoryOf hd with rfl | hd
    · exact hworking
    · exact hway d hd
  obtain ⟨hresult, hextends⟩ : (larger.write .existingDirectory p.path p.descriptor.content).1 =
        (tree.write .existingDirectory p.path p.descriptor.content).1 ∧
      Extends (tree.write .existingDirectory p.path p.descriptor.content).2
        (larger.write .existingDirectory p.path p.descriptor.content).2 directories files :=
    h.writeInto (fun d hd hadded => absurd hadded (hdirectory d hd)) (hway _ (FileTree.placeOf_mem_way _ _))
  have hsame := (FileTree.wrote_write tree .existingDirectory p.path p.descriptor.content).working
  rw [writeProject_eq] at hfiles
  rw [writeProject_eq, writeProject_eq, hresult]
  cases hwrite : (tree.write .existingDirectory p.path p.descriptor.content).1 with
  | error error => exact ⟨rfl, hextends⟩
  | ok result =>
    rw [hwrite] at hfiles
    have hmarkerPlaces : ∀ marker ∈ p.markerFiles, ¬directories (placeOf tree.working marker.1) := fun marker hmarker =>
      hplaces _ (List.mem_map_of_mem (List.mem_cons_of_mem _ (List.mem_map_of_mem hmarker)))
    obtain ⟨hmarkers, hmarkersExtends⟩ :=
      writeMarkers_extends p.markerFiles hextends (hsame ▸ hworking) (hsame ▸ hmarkerPlaces) hfiles
    simp only [hmarkers]
    exact ⟨trivial, hmarkersExtends⟩

/-! ## Orders -/

namespace Exporter

variable (exporter : Exporter) (tree : FileTree)

/-- The directories that the export of a project alone creates. -/
def creates (graph : ProjectGraph) : List Location :=
  newDirectories tree ((exporter.withDry false).run tree [graph]).2

def watches (graph : ProjectGraph) : List Location :=
  match prepareProject exporter.policy (exporter.probe tree) graph with
  | .ok p => p.watched tree.working
  | .error _ => []

/-- Neither of two projects creates a directory that the other one would notice. -/
def Apart (graph other : ProjectGraph) : Prop :=
  (∀ location ∈ exporter.creates tree graph, location ∉ exporter.watches tree other) ∧
    ∀ location ∈ exporter.creates tree other, location ∉ exporter.watches tree graph

instance : DecidableRel (exporter.Apart tree) := fun graph other =>
  inferInstanceAs (Decidable ((∀ location ∈ exporter.creates tree graph, location ∉ exporter.watches tree other) ∧
    ∀ location ∈ exporter.creates tree other, location ∉ exporter.watches tree graph))

/-- What becomes of the projects of a real run.  The reasons of the abandoned ones are left out: they end in the fault
that the system reports, which may be another one in another order. -/
def fates (graphs : List ProjectGraph) : Except ExportFailure (List ExportOutcome) :=
  ((exporter.withDry false).run tree graphs).1.map (·.map (·.withoutReason))

def outcomeOf (graph : ProjectGraph) : ExportOutcome :=
  match prepareProject exporter.policy (exporter.probe tree) graph with
  | .ok p => (writeProject tree p).1
  | .error failure => .abandoned graph.name failure.message

variable {exporter tree}

theorem Apart.symm {graph other : ProjectGraph} (h : exporter.Apart tree graph other) :
    exporter.Apart tree other graph := ⟨h.2, h.1⟩

section Prepared

variable {graph : ProjectGraph} {p : PreparedProject}
  (h : prepareProject exporter.policy (exporter.probe tree) graph = .ok p)
include h

theorem watches_eq : exporter.watches tree graph = p.watched tree.working := by
  rw [watches, h]

theorem outcomeOf_eq : exporter.outcomeOf tree graph = (writeProject tree p).1 := by
  rw [outcomeOf, h]

theorem run_singleton :
    (exporter.withDry false).run tree [graph] = (.ok [exporter.outcomeOf tree graph], (writeProject tree p).2) := by
  have hprepared : prepareProjects exporter.policy (exporter.probe tree) [graph] = .ok [p] :=
    prepareProjects_eq_ok_iff.2 (.cons h .nil)
  rw [run_of_prepared (exporter.withDry false) hprepared, outcomeOf_eq h]
  rfl

theorem mem_creates_iff {location : Location} : location ∈ exporter.creates tree graph ↔
    tree.entryAt? location = none ∧ (writeProject tree p).2.entryAt? location = some .directory := by
  rw [creates, run_singleton h, mem_newDirectories_iff]

/-- What a project adds to the tree: directories that it creates, and files at places that it watches. -/
theorem extends_writeProject : Extends tree (writeProject tree p).2 (· ∈ exporter.creates tree graph)
    (fun location => tree.entryAt? location = none ∧ location ∈ exporter.watches tree graph) := by
  obtain ⟨files, haccounts, hwrote⟩ := wrote_writeProject tree p
  rw [creates, run_singleton h, watches_eq h]
  refine hwrote.extends.mono fun location hlocation => ⟨hlocation.1, ?_⟩
  obtain ⟨file, hfile, hlocate⟩ := hlocation.2
  rw [FileTree.eq_placeOf_of_locate hlocate, hwrote.working]
  exact List.mem_cons_of_mem _ (List.mem_append_right _ (haccounts.mem_places tree.working hfile))

end Prepared

/-- Projects that are finished one after another, in a tree that has grown by what others have created.  The invariant is
that none of the projects to come notices what is there. -/
theorem finishAll_eq_map {graphs : List ProjectGraph} {ps : List PreparedProject}
    (hprepared : List.Forall₂ (fun graph p => prepareProject exporter.policy (exporter.probe tree) graph = .ok p) graphs ps)
    (hapart : graphs.Pairwise (exporter.Apart tree)) :
    ∀ {larger : FileTree} {directories files : Location → Prop}, Extends tree larger directories files →
      (∀ graph ∈ graphs, (∀ location ∈ exporter.watches tree graph, ¬directories location) ∧
        ∀ location, files location → tree.entryAt? location = none ∧ location ∉ exporter.creates tree graph) →
      ((exporter.withDry false).finishAll larger ps).1 = graphs.map (exporter.outcomeOf tree) := by
  induction hprepared with
  | nil => intros; rfl
  | @cons graph p graphs ps hp hps ih =>
    intro larger directories files h hclear
    obtain ⟨hhere, hrest⟩ := List.pairwise_cons.1 hapart
    obtain ⟨⟨hwatches, hfiles⟩, hclearRest⟩ := List.forall_mem_cons.1 hclear
    rw [watches_eq hp] at hwatches
    obtain ⟨houtcome, hextends⟩ := writeProject_extends h hwatches fun location hfile hdirectory =>
      (hfiles location hfile).2 ((mem_creates_iff hp).2 ⟨(hfiles location hfile).1, hdirectory⟩)
    have hstep : ((exporter.withDry false).finishAll larger (p :: ps)).1 =
        (writeProject larger p).1 :: ((exporter.withDry false).finishAll (writeProject larger p).2 ps).1 := rfl
    rw [hstep, List.map_cons, houtcome, outcomeOf_eq hp]
    rw [ih hrest ((extends_writeProject hp).trans hextends) fun other hother => ⟨fun location hlocation => ?_,
      fun location hlocation => ?_⟩]
    -- what this project has created comes to what was there, and the others are apart from both
    · rintro (hcreated | hadded)
      · exact (hhere other hother).1 location hcreated hlocation
      · exact (hclearRest other hother).1 location hlocation hadded
    · rcases hlocation with ⟨hnone, hwatched⟩ | hfile
      · exact ⟨hnone, fun hcreated => (hhere other hother).2 location hcreated hwatched⟩
      · exact (hclearRest other hother).2 location hfile

/-- Projects that are apart fare as they do alone. -/
theorem fates_eq_map {graphs : List ProjectGraph} (hpasses : ∀ graph ∈ graphs, graph.Passes)
    (hapart : graphs.Pairwise (exporter.Apart tree)) :
    exporter.fates tree graphs = .ok (graphs.map fun graph => (exporter.outcomeOf tree graph).withoutReason) := by
  obtain ⟨ps, hps⟩ := (prepareProjects_ok_iff_passes exporter.policy (exporter.probe tree) graphs).2 hpasses
  have hrun : ((exporter.withDry false).run tree graphs).1 = .ok (graphs.map (exporter.outcomeOf tree)) := by
    rw [run_of_prepared (exporter.withDry false) hps,
      finishAll_eq_map (prepareProjects_eq_ok_iff.1 hps) hapart (.refl tree) fun graph _ =>
        ⟨fun _ _ => id, fun _ hfile => hfile.elim⟩]
  rw [fates, hrun]
  exact congrArg Except.ok List.map_map

/-- **The order of projects that are apart does not matter.**  If none of them creates a directory that another one would
notice, each fares in every order of the projects as it does when it is exported alone. -/
theorem run_perm {graphs : List ProjectGraph} (hpasses : ∀ graph ∈ graphs, graph.Passes)
    (hapart : graphs.Pairwise (exporter.Apart tree)) :
    ∃ fate : ProjectGraph → ExportOutcome,
      (∀ graph ∈ graphs, exporter.fates tree [graph] = .ok [fate graph]) ∧
      ∀ others, others.Perm graphs → exporter.fates tree others = .ok (others.map fate) := by
  refine ⟨fun graph => (exporter.outcomeOf tree graph).withoutReason, fun graph hgraph => ?_, fun others hperm => ?_⟩
  · have halone : ∀ other ∈ [graph], other.Passes := List.forall_mem_singleton.2 (hpasses graph hgraph)
    exact fates_eq_map halone (List.pairwise_singleton _ _)
  · have hothers : ∀ graph ∈ others, graph.Passes := fun graph hgraph => hpasses graph (hperm.mem_iff.1 hgraph)
    exact fates_eq_map hothers ((hperm.pairwise_iff fun h => Apart.symm h).2 hapart)

theorem passes_of_complete {s : Snapshot} (hbuild : s.build = .complete)
    (hnames : ∀ project ∈ s.projects, (project.targets.map (·.name)).Nodup) : ∀ graph ∈ s.graphs, graph.Passes := by
  intro graph hgraph
  obtain ⟨project, hproject, rfl⟩ := List.mem_map.1 hgraph
  refine ⟨fun setting => ?_, hnames project hproject⟩
  rw [hbuild]
  cases setting <;> rfl

/-- Two projects in one build.  The object library of the first one needs new directories, and the output directory of
the second one is missing. -/
def objectsAndGone : Snapshot where
  build := .complete
  projects := [
    { name := "objects"
      outputDirectory := "/b"
      targets := [{ name := "objs", kind := .objectLibrary, buildDirectory := "/b" }] },
    { name := "gone", outputDirectory := "/missing" }]

theorem run_perm_objectsAndGone :
    (∀ graph ∈ objectsAndGone.graphs, graph.Passes) ∧
    objectsAndGone.graphs.Pairwise (Apart { policy := {} } buildTree) ∧
    ∃ fate : ProjectGraph → ExportOutcome,
      fates { policy := {} } buildTree objectsAndGone.graphs = .ok (objectsAndGone.graphs.map fate) ∧
      fates { policy := {} } buildTree objectsAndGone.graphs.reverse = .ok (objectsAndGone.graphs.reverse.map fate) ∧
      objectsAndGone.graphs.map fate =
        [.written "objects" "/b/objects.cbp" ["/b/CMakeFiles/objs.dir/objs.objlib"] [],
          .abandoned "gone" []] := by
  have hpasses : ∀ graph ∈ objectsAndGone.graphs, graph.Passes := passes_of_complete rfl (by decide)
  have hapart : objectsAndGone.graphs.Pairwise (Apart { policy := {} } buildTree) := by decide
  obtain ⟨fate, -, hall⟩ := run_perm hpasses hapart
  have hgiven : fates { policy := {} } buildTree objectsAndGone.graphs =
      .ok [.written "objects" "/b/objects.cbp" ["/b/CMakeFiles/objs.dir/objs.objlib"] [], .abandoned "gone" []] := rfl
  exact ⟨hpasses, hapart, fate, hall _ (.refl _), hall _ (List.reverse_perm _),
    Except.ok.inj ((hall _ (.refl _)).symm.trans hgiven)⟩

/-- Two projects in one build.  The object library of the first one is built in the output directory of the second, which
is missing. -/
def nested : Snapshot where
  build := .complete
  projects := [
    { name := "lib"
      outputDirectory := "/b"
      targets := [{ name := "objs", kind := .objectLibrary, buildDirectory := "/b/app" }] },
    { name := "app", outputDirectory := "/b/app" }]

theorem not_forall_run_perm :
    ¬∀ (s : Snapshot) (tree : FileTree) (others : List ProjectGraph), Snapshot.validate [] s = .ok () →
      (∀ graph ∈ s.graphs, graph.Passes) → others.Perm s.graphs → ∃ files : ProjectGraph → List Text,
        (run { policy := s.policy } tree s.graphs).1.map (·.map (·.paths)) = .ok (s.graphs.map files) ∧
        (run { policy := s.policy } tree others).1.map (·.map (·.paths)) = .ok (others.map files) := by
  intro h
  have hpasses : ∀ graph ∈ nested.graphs, graph.Passes := passes_of_complete rfl (by decide)
  obtain ⟨files, hgiven, hother⟩ :=
    h nested buildTree nested.graphs.reverse (by decide) hpasses (List.reverse_perm _)
  have hlast : (run { policy := nested.policy } buildTree nested.graphs).1.map (·.map (·.paths)) =
      .ok [["/b/lib.cbp".toList, "/b/app/CMakeFiles/objs.dir/objs.objlib".toList], ["/b/app/app.cbp".toList]] := rfl
  have hfirst : (run { policy := nested.policy } buildTree nested.graphs.reverse).1.map (·.map (·.paths)) =
      .ok [[], ["/b/lib.cbp".toList, "/b/app/CMakeFiles/objs.dir/objs.objlib".toList]] := rfl
  have hwritten := Except.ok.inj (hlast.symm.trans hgiven)
  have habandoned := Except.ok.inj (hfirst.symm.trans hother)
  have happ : (files (nested.graphs[1])) = ["/b/app/app.cbp".toList] := (congrArg (·[1]!) hwritten).symm
  have hnone : (files (nested.graphs[1])) = [] := (congrArg (·[0]!) habandoned).symm
  rw [happ] at hnone
  cases hnone

end Exporter
end IdeExport
