import IdeExport.Export
import IdeExport.Proofs.FileTree.Writing
import IdeExport.Proofs.Pipeline.Prepared
import Mathlib.Data.List.Forall2
/-!
# What a dry run says of the real one

Projects are prepared before anything is written, so both runs prepare the same ones from the tree they start with.
After that a run finishes one project at a time, and the tree that a project meets is the one that the projects before
it have left (`finishAll_getElem?`).  What is written there is what was prepared.
-/
namespace IdeExport

/-! ## Preparing -/

variable {policy : ExportPolicy} {probe : Text → Bool}

theorem prepareProjects_cons {graph : ProjectGraph} {graphs : List ProjectGraph} {ps : List PreparedProject} :
    prepareProjects policy probe (graph :: graphs) = .ok ps ↔
      ∃ p qs, prepareProject policy probe graph = .ok p ∧ prepareProjects policy probe graphs = .ok qs ∧
        ps = p :: qs := by
  rw [prepareProjects]
  cases prepareProject policy probe graph with
  | error failure => simp
  | ok p =>
    cases prepareProjects policy probe graphs with
    | error failure => simp
    | ok qs => simp [eq_comm]

theorem prepareProjects_eq_ok_iff :
    ∀ {graphs : List ProjectGraph} {ps : List PreparedProject}, prepareProjects policy probe graphs = .ok ps ↔
      List.Forall₂ (fun graph p => prepareProject policy probe graph = .ok p) graphs ps
  | [], ps => by
    rw [prepareProjects, List.forall₂_nil_left_iff]
    simp [eq_comm]
  | graph :: graphs, ps => by
    rw [prepareProjects_cons, List.forall₂_cons_left_iff]
    constructor
    · rintro ⟨p, qs, hp, hqs, rfl⟩
      exact ⟨p, qs, hp, prepareProjects_eq_ok_iff.1 hqs, rfl⟩
    · rintro ⟨p, qs, hp, hqs, rfl⟩
      exact ⟨p, qs, hp, prepareProjects_eq_ok_iff.2 hqs, rfl⟩

theorem project_of_prepareProject {graph : ProjectGraph} {p : PreparedProject}
    (h : prepareProject policy probe graph = .ok p) : p.project = graph.name := by
  unfold prepareProject at h
  split at h
  · rename_i ctx hprepared
    obtain ⟨-, -, rfl⟩ := prepared_eq_ok_iff.1 hprepared
    cases h
    rfl
  · cases h

theorem exists_prepareProject {graphs : List ProjectGraph} {ps : List PreparedProject}
    (h : prepareProjects policy probe graphs = .ok ps) {i : Nat} {graph : ProjectGraph}
    (hgraph : graphs[i]? = some graph) : ∃ p, ps[i]? = some p ∧ prepareProject policy probe graph = .ok p := by
  have hprepared := prepareProjects_eq_ok_iff.1 h
  obtain ⟨hi, rfl⟩ := List.getElem?_eq_some_iff.1 hgraph
  have hps : i < ps.length := hprepared.length_eq ▸ hi
  exact ⟨ps[i], List.getElem?_eq_getElem hps, hprepared.get hi hps⟩

theorem exists_prepared {graphs : List ProjectGraph} {ps : List PreparedProject}
    (h : prepareProjects policy probe graphs = .ok ps) {i : Nat} {graph : ProjectGraph}
    (hgraph : graphs[i]? = some graph) : ∃ p, ps[i]? = some p ∧ p.project = graph.name := by
  obtain ⟨p, hp, hprepare⟩ := exists_prepareProject h hgraph
  exact ⟨p, hp, project_of_prepareProject hprepare⟩

namespace Exporter

variable (exporter : Exporter)

/-! ## Finishing -/

theorem finishAll_dry (tree : FileTree) : ∀ ps : List PreparedProject,
    (exporter.withDry true).finishAll tree ps = (ps.map (·.shown), tree)
  | [] => rfl
  | p :: ps => by
    rw [finishAll, show (exporter.withDry true).finish tree p = (p.shown, tree) from rfl]
    simp only [finishAll_dry tree ps, List.map_cons]

theorem length_finishAll : ∀ (ps : List PreparedProject) (tree : FileTree),
    (exporter.finishAll tree ps).1.length = ps.length
  | [], _ => rfl
  | _ :: ps, _ => congrArg (· + 1) (length_finishAll ps _)

/-- **A project is finished in the tree that the projects before it leave.** -/
theorem finishAll_getElem? : ∀ (ps : List PreparedProject) (tree : FileTree) {i : Nat} {p : PreparedProject},
    ps[i]? = some p →
      (exporter.finishAll tree ps).1[i]? = some (exporter.finish (exporter.finishAll tree (ps.take i)).2 p).1 ∧
      (exporter.finishAll tree (ps.take (i + 1))).2 = (exporter.finish (exporter.finishAll tree (ps.take i)).2 p).2
  | q :: ps, tree, 0, p, h => by
    cases h
    exact ⟨rfl, rfl⟩
  | q :: ps, tree, i + 1, p, h => finishAll_getElem? ps _ h

/-! ## Runs -/

theorem run_of_prepared {tree : FileTree} {graphs : List ProjectGraph} {ps : List PreparedProject}
    (h : prepareProjects exporter.policy (exporter.probe tree) graphs = .ok ps) :
    exporter.run tree graphs = (.ok (exporter.finishAll tree ps).1, (exporter.finishAll tree ps).2) := by
  unfold run
  rw [h]

theorem run_of_failed {tree : FileTree} {graphs : List ProjectGraph} {failure : ExportFailure}
    (h : prepareProjects exporter.policy (exporter.probe tree) graphs = .error failure) :
    exporter.run tree graphs = (.error failure, tree) := by
  unfold run
  rw [h]

theorem run_take {tree : FileTree} {graphs : List ProjectGraph} {ps : List PreparedProject}
    (h : prepareProjects exporter.policy (exporter.probe tree) graphs = .ok ps) (i : Nat) :
    (exporter.run tree (graphs.take i)).2 = (exporter.finishAll tree (ps.take i)).2 := by
  have htake := prepareProjects_eq_ok_iff.2 (List.forall₂_take i (prepareProjects_eq_ok_iff.1 h))
  rw [exporter.run_of_prepared htake]

/-- What a project that a dry run shows becomes in a real run, with the trees before and after it.  Either its file
cannot be written and nothing is, or exactly the content that was shown is at its path before the markers are
written. -/
inductive Realizes (before after : FileTree) : ExportOutcome → ExportOutcome → Prop
  | abandoned {project : Text} {preview : Preview} {diagnostics : List Diagnostic} {error : FileTree.WriteError}
    (hfailed : before.write .existingDirectory preview.path preview.content = (.error error, before))
    (hafter : after = before) :
    Realizes before after (.rendered project preview diagnostics) (.abandoned project error.message)
  | written {project : Text} {preview : Preview} {diagnostics : List Diagnostic} {between : FileTree}
    {files : List (Text × Text)} {markers : List Text}
    (hwritten : before.write .existingDirectory preview.path preview.content = (.ok .written, between))
    (hread : between.read? preview.path = some preview.content)
    (hmarkers : writeMarkers between files = (markers, after)) :
    Realizes before after (.rendered project preview diagnostics) (.written project preview.path markers diagnostics)

theorem realizes_writeProject (tree : FileTree) (p : PreparedProject) :
    Realizes tree (writeProject tree p).2 p.shown (writeProject tree p).1 := by
  unfold writeProject
  rw [FileTree.write_existingDirectory]
  rcases FileTree.writeInto_cases tree p.path p.descriptor.content with
    ⟨error, hwrite⟩ | ⟨location, hlocate, hfree, hwrite⟩
  · rw [hwrite]
    exact .abandoned hwrite rfl
  · rw [hwrite]
    exact .written hwrite (FileTree.read?_put hlocate hfree) rfl

/-- **A dry run tells what a real run does.**  The two fail together and with the same failure, and a failed run has
written nothing.  Otherwise both have one outcome for each project, the dry run leaves the tree alone and shows every
project, and the real run makes of each what was shown, or abandons it. -/
theorem dryRun_predicts (tree : FileTree) (graphs : List ProjectGraph) :
    (∀ failure, ((exporter.withDry true).run tree graphs).1 = .error failure ↔
      ((exporter.withDry false).run tree graphs).1 = .error failure) ∧
    (∀ failure, ((exporter.withDry false).run tree graphs).1 = .error failure →
      ((exporter.withDry false).run tree graphs).2 = tree) ∧
    ((exporter.withDry true).run tree graphs).2 = tree ∧
    ∀ shown, ((exporter.withDry true).run tree graphs).1 = .ok shown →
      ∃ outcomes, ((exporter.withDry false).run tree graphs).1 = .ok outcomes ∧
        shown.length = graphs.length ∧ outcomes.length = graphs.length ∧
        ∀ i graph, graphs[i]? = some graph → ∃ preview diagnostics outcome,
          shown[i]? = some (.rendered graph.name preview diagnostics) ∧ outcomes[i]? = some outcome ∧
          Realizes ((exporter.withDry false).run tree (graphs.take i)).2
            ((exporter.withDry false).run tree (graphs.take (i + 1))).2
            (.rendered graph.name preview diagnostics) outcome := by
  cases hprepared : prepareProjects exporter.policy (exporter.probe tree) graphs with
  | error failure =>
    have hdry : (exporter.withDry true).run tree graphs = (.error failure, tree) := run_of_failed _ hprepared
    have hreal : (exporter.withDry false).run tree graphs = (.error failure, tree) := run_of_failed _ hprepared
    rw [hdry, hreal]
    refine ⟨fun _ => Iff.rfl, fun _ _ => rfl, rfl, fun shown h => ?_⟩
    cases h
  | ok ps =>
    have hdry := run_of_prepared (exporter.withDry true) hprepared
    have hreal := run_of_prepared (exporter.withDry false) hprepared
    rw [finishAll_dry] at hdry
    have hlength := (prepareProjects_eq_ok_iff.1 hprepared).length_eq
    rw [hdry, hreal]
    refine ⟨fun failure => ⟨fun h => (by cases h), fun h => (by cases h)⟩, fun failure h => (by cases h), rfl, ?_⟩
    intro shown hshown
    cases hshown
    refine ⟨_, rfl, by rw [List.length_map, hlength], by rw [length_finishAll, hlength], ?_⟩
    intro i graph hgraph
    obtain ⟨p, hp, hproject⟩ := exists_prepared hprepared hgraph
    obtain ⟨houtcome, hafter⟩ := finishAll_getElem? (exporter.withDry false) ps tree hp
    refine ⟨p.preview, p.diagnostics, _, ?_, houtcome, ?_⟩
    · rw [List.getElem?_map, hp, ← hproject]
      rfl
    · rw [run_take (exporter.withDry false) hprepared, run_take (exporter.withDry false) hprepared, hafter, ← hproject]
      exact realizes_writeProject _ p

/-- Two projects without targets, one of them with an output directory that `buildTree` lacks. -/
def goneAndKept : List ProjectGraph :=
  [{ settings := .complete, project := { name := "gone", outputDirectory := "/missing" } },
   { settings := .complete, project := { name := "kept", outputDirectory := "/b" } }]

def buildTree : FileTree := { entries := [(["b"], .directory)] }

/-- A project whose settings lack what validation asks for. -/
def incompleteGraph : ProjectGraph where
  settings := { homeDirectory := "/s", homeOutputDirectory := "/b" }
  project := { name := "late", outputDirectory := "/b" }

/-- The settings of the last project stop the whole run.  Without it the first project is abandoned, and the file of the
second one has what the dry run shows. -/
theorem dryRun_predicts_goneAndKept :
    (run { policy := {} } buildTree (goneAndKept ++ [incompleteGraph])).2 = buildTree ∧
    ∃ shown outcomes, (run { policy := {}, dry := true } buildTree goneAndKept).1 = .ok shown ∧
      (run { policy := {} } buildTree goneAndKept).1 = .ok outcomes ∧
      (outcomes[0]?).map (·.isAbandoned) = some true ∧
      ∃ preview diagnostics, shown[1]? = some (.rendered "kept" preview diagnostics) ∧
        outcomes[1]? = some (.written "kept" "/b/kept.cbp" [] diagnostics) ∧
        (run { policy := {} } buildTree goneAndKept).2.read? "/b/kept.cbp" = some preview.content ∧
        Realizes (run { policy := {} } buildTree (goneAndKept.take 1)).2 (run { policy := {} } buildTree goneAndKept).2
          (.rendered "kept" preview diagnostics) (.written "kept" "/b/kept.cbp" [] diagnostics) := by
  constructor
  · exact (dryRun_predicts { policy := {} } buildTree (goneAndKept ++ [incompleteGraph])).2.1 _ rfl
  · obtain ⟨outcomes, hreal, -, -, hall⟩ := (dryRun_predicts { policy := {} } buildTree goneAndKept).2.2.2 _ rfl
    obtain ⟨preview, diagnostics, outcome, hshown, houtcome, hrealizes⟩ := hall 1 _ rfl
    cases hreal
    cases hshown
    cases houtcome
    exact ⟨_, _, rfl, rfl, rfl, _, _, rfl, rfl, by decide +kernel, hrealizes⟩

end Exporter
end IdeExport
