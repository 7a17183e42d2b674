import IdeExport.Proofs.FileTree.Extends
/-!
# Creating directories in a larger tree

Directories are created along the pieces of a path, each in the one before (`Stands`).  In a larger tree some of them may
be there already, which makes no difference.  Only an additional file can be in the way, at a place where the smaller tree
would get a directory; without one, the same directories can be made in both trees (`Extends.createDirectories`), and a
file is written below them alike (`Extends.writeThrough`).
-/
namespace IdeExport
namespace FileTree

variable {tree larger : FileTree} {directories files : Location → Prop} {location : Location} {path content : Text}

/-! ## Following pieces -/

/-- The pieces of a path up to here can be followed, to a directory. -/
structure Stands (tree : FileTree) (start : Path.Start) (before : List Text) (location : Location) : Prop where
  follow : tree.follow (origin tree.working start) (start.lead ++ before) = some location
  directory : tree.entryAt? location = some .directory

theorem Stands.mono {after : FileTree} {start : Path.Start} {before : List Text} (h : Stands tree start before location)
    (hkeeps : Keeps tree after) : Stands after start before location :=
  ⟨hkeeps.working ▸ hkeeps.follow h.follow, hkeeps.directories location h.directory⟩

theorem startOf_ofPieces {start : Path.Start} {pieces : List Text} (h : Path.Reads start pieces) (hne : pieces ≠ [])
    (working : Location) : startOf working (Path.ofPieces start pieces) = origin working start := by
  rw [startOf, (Path.same_ofPieces h fun _ => hne).1]

theorem stands_nil {start : Path.Start} (h : tree.entryAt? (origin tree.working start) = some .directory) :
    Stands tree start [] (origin tree.working start) := by
  refine ⟨?_, h⟩
  cases start with
  | root => rfl
  | dot =>
    rw [Path.Start.lead, List.append_nil, FileTree.follow, if_pos ⟨h, by decide⟩]
    rfl
  | name => rfl

theorem follow_ofPieces {start : Path.Start} {pieces : List Text} (h : Path.Reads start pieces) (hne : pieces ≠ [])
    (hlocate : tree.locate (Path.ofPieces start pieces) = some location) :
    tree.follow (origin tree.working start) (start.lead ++ pieces) = some location := by
  rw [locate_eq, Path.split_ofPieces h hne, startOf_ofPieces h hne] at hlocate
  split at hlocate
  · cases hlocate
  · exact hlocate

namespace Stands

variable {start : Path.Start} {before : List Text} {piece : Text}

theorem follow_concat (h : Stands tree start before location) (piece : Text) :
    tree.follow (origin tree.working start) (start.lead ++ (before ++ [piece])) =
      if Text.byteSize piece ≤ maxNameSize then some (step location piece) else none := by
  rw [← List.append_assoc, follow_append, h.follow, Option.bind_some]
  simp only [FileTree.follow, h.directory, true_and]

theorem locate_congr {other : FileTree} (h : Stands tree start before location)
    (h' : Stands other start before location) (hreads : Path.Reads start (before ++ [piece])) :
    other.locate (Path.ofPieces start (before ++ [piece])) = tree.locate (Path.ofPieces start (before ++ [piece])) := by
  have hne : before ++ [piece] ≠ [] := by simp
  rw [locate_eq, locate_eq, Path.split_ofPieces hreads hne, startOf_ofPieces hreads hne, startOf_ofPieces hreads hne,
    h.follow_concat, h'.follow_concat]

theorem concat_of_not_isComponent (h : Stands tree start before location) (hpiece : Path.isComponent piece = false) :
    Stands tree start (before ++ [piece]) location := by
  have hshort : Text.byteSize piece ≤ maxNameSize := by
    have hcases : piece = [] ∨ piece = ['.'] := by
      by_contra hne
      rw [not_or] at hne
      simp [Path.isComponent, hne.1, hne.2] at hpiece
    rcases hcases with rfl | rfl <;> decide
  refine ⟨?_, h.directory⟩
  rw [h.follow_concat, if_pos hshort, step_of_not_isComponent hpiece]

end Stands

theorem stands_of_ensureDirectory {after : FileTree} {start : Path.Start} {pieces : List Text}
    (hreads : Path.Reads start pieces) (hne : pieces ≠ [])
    (h : tree.ensureDirectory (Path.ofPieces start pieces) = some after) :
    ∃ location, Stands after start pieces location := by
  obtain ⟨location, hlocate, ⟨hdirectory, rfl⟩ | ⟨hnone, rfl⟩⟩ := ensureDirectory_cases h
  · exact ⟨location, follow_ofPieces hreads hne hlocate, hdirectory⟩
  · have hkeeps := (wrote_directory hnone).toKeeps
    exact ⟨location, hkeeps.working ▸ hkeeps.follow (follow_ofPieces hreads hne hlocate),
      entryAt?_put_self (ne_nil_of_entryAt?_eq_none hnone)⟩

/-! ## Creating directories -/

namespace Extends

theorem ensureDirectory (h : Extends tree larger directories files) (hlocate : larger.locate path = tree.locate path)
    (hfiles : ∀ after, tree.ensureDirectory path = some after →
      ∀ location, files location → after.entryAt? location ≠ some .directory) :
    Option.Rel (Extends · · directories files) (tree.ensureDirectory path) (larger.ensureDirectory path) := by
  unfold FileTree.ensureDirectory at hfiles ⊢
  rw [hlocate]
  cases hplace : tree.locate path with
  | none => exact .none
  | some place =>
    have hroot : tree.entryAt? place = none → place ≠ [] := ne_nil_of_entryAt?_eq_none
    have hgrown := h.grown place
    simp only [hplace] at hfiles ⊢
    generalize hentry : tree.entryAt? place = entry at hgrown hfiles hroot
    generalize hlarger : larger.entryAt? place = other at hgrown
    cases hgrown with
    | nothing hdirectory => exact .some (h.put_both (hroot rfl) .directory)
    | newDirectory => exact .some (h.put_directory (hroot rfl) hlarger)
    | newFile hdirectory hfile => exact absurd (entryAt?_put_self (hroot rfl)) (hfiles _ rfl place hfile)
    | directory => exact .some h
    | file hdirectory => exact .none

/-- The directories on the way along some pieces are created in the larger tree as far as in the smaller one. -/
theorem ensureAll {start : Path.Start} : ∀ (pieces : List Text) {before : List Text} {tree larger : FileTree}
    {location : Location}, Extends tree larger directories files → Stands tree start before location →
    Path.Reads start (before ++ pieces) →
    let paths := (Path.prefixesFrom before pieces).map (Path.ofPieces start)
    (∀ location, files location → (tree.ensureAll paths).1.entryAt? location ≠ some .directory) →
    (larger.ensureAll paths).2 = (tree.ensureAll paths).2 ∧
      Extends (tree.ensureAll paths).1 (larger.ensureAll paths).1 directories files ∧
      ((tree.ensureAll paths).2 = true → ∃ goal, Stands (tree.ensureAll paths).1 start (before ++ pieces) goal)
  | [], before, tree, larger, location, h, hstands, _ => by
    intro paths _
    refine ⟨rfl, h, fun _ => ⟨location, ?_⟩⟩
    rw [List.append_nil]
    exact hstands
  | piece :: pieces, before, tree, larger, location, h, hstands, hreads => by
    rw [List.append_cons] at hreads ⊢
    intro paths hfiles
    by_cases hpiece : Path.isComponent piece = true
    · have hpaths : paths = Path.ofPieces start (before ++ [piece]) ::
          (Path.prefixesFrom (before ++ [piece]) pieces).map (Path.ofPieces start) := by
        simp only [paths, Path.prefixesFrom, hpiece, if_true, List.map_cons]
      rw [hpaths] at hfiles ⊢
      have hhere : Path.Reads start (before ++ [piece]) := hreads.mono (List.prefix_append _ _)
      -- both trees stand at the same location, so the next piece leads to the same one
      have hlocate := hstands.locate_congr (hstands.mono h.keeps) hhere
      have hrel := h.ensureDirectory hlocate fun after hafter location hfile hdirectory => by
        rw [FileTree.ensureAll, hafter] at hfiles
        exact hfiles location hfile ((wrote_ensureAll _ after).directories location hdirectory)
      rw [FileTree.ensureAll, FileTree.ensureAll]
      rw [FileTree.ensureAll] at hfiles
      generalize hsmaller : tree.ensureDirectory (Path.ofPieces start (before ++ [piece])) = made at hrel hfiles
      generalize larger.ensureDirectory (Path.ofPieces start (before ++ [piece])) = largerMade at hrel
      cases hrel with
      | none => exact ⟨rfl, h, fun hmade => by cases hmade⟩
      | some hextends =>
        obtain ⟨place, hplace⟩ := stands_of_ensureDirectory hhere (by simp) hsmaller
        exact ensureAll pieces hextends hplace hreads hfiles
    · have hpaths : paths = (Path.prefixesFrom (before ++ [piece]) pieces).map (Path.ofPieces start) := by
        simp only [paths, Path.prefixesFrom, hpiece]
        rfl
      rw [hpaths] at hfiles ⊢
      exact ensureAll pieces h (hstands.concat_of_not_isComponent (Bool.eq_false_iff.2 hpiece)) hreads hfiles

end Extends

theorem mem_prefixesFrom {through : List Text} : ∀ {pieces before : List Text},
    through ∈ Path.prefixesFrom before pieces → through ≠ [] ∧ through <+: before ++ pieces
  | [], before, h => by cases h
  | piece :: pieces, before, h => by
    rw [List.append_cons]
    unfold Path.prefixesFrom at h
    simp only at h
    split at h
    · rcases List.mem_cons.1 h with rfl | h
      · exact ⟨by simp, List.prefix_append _ _⟩
      · exact mem_prefixesFrom h
    · exact mem_prefixesFrom h

theorem filter_isComponent_of_prefixesFrom : ∀ {pieces before : List Text}, Path.prefixesFrom before pieces = [] →
    pieces.filter Path.isComponent = []
  | [], _, _ => rfl
  | piece :: pieces, before, h => by
    unfold Path.prefixesFrom at h
    simp only at h
    split at h
    · cases h
    · rename_i hpiece
      rw [List.filter_cons_of_neg hpiece]
      exact filter_isComponent_of_prefixesFrom h

theorem ensureAll_of_locate_eq_none {paths : List Text} (h : ∀ path ∈ paths, tree.locate path = none) :
    tree.ensureAll paths = (tree, paths.isEmpty) := by
  cases paths with
  | nil => rfl
  | cons path paths =>
    have hensure : tree.ensureDirectory path = none := by
      rw [ensureDirectory, h path List.mem_cons_self]
    rw [ensureAll, hensure]
    rfl

theorem ensureAll_directoriesTo (h : tree.entryAt? (startOf tree.working path) ≠ some .directory) :
    tree.ensureAll (Path.directoriesTo path) = (tree, (Path.directoriesTo path).isEmpty) := by
  refine ensureAll_of_locate_eq_none fun other hother => ?_
  have hreads := Path.reads_startAndPieces path
  unfold Path.directoriesTo at hother
  unfold startOf at h
  generalize Path.startAndPieces path = own at h hother hreads
  obtain ⟨through, hthrough, rfl⟩ := List.mem_map.1 hother
  obtain ⟨hne, hprefix⟩ := mem_prefixesFrom hthrough
  apply locate_eq_none
  rwa [startOf_ofPieces (hreads.mono hprefix) hne]

/-- Only a relative path can start where no directory is. -/
theorem startOf_of_not_directory (h : tree.entryAt? (startOf tree.working path) ≠ some .directory) :
    startOf tree.working path = tree.working := by
  unfold startOf origin at h ⊢
  split at h
  · exact absurd rfl h
  · rename_i hrelative
    rw [if_neg hrelative]

theorem way_of_directoriesTo_isEmpty {working : Location} (h : (Path.directoriesTo path).isEmpty = true) :
    way working path = [startOf working path] := by
  have hcomponents : Path.components path = [] := by
    rw [Path.components_eq_filter]
    exact filter_isComponent_of_prefixesFrom (List.map_eq_nil_iff.1 (List.isEmpty_iff.1 h))
  rw [way, hcomponents, visits]

namespace Extends

/-- **Creating directories succeeds in a larger tree exactly if it does in the smaller one**, and the way to them is then
open in both. -/
theorem createDirectories (h : Extends tree larger directories files) (hworking : ¬directories tree.working)
    (hpath : path ≠ [])
    (hfiles : ∀ location, files location → (tree.createDirectories path).1.entryAt? location ≠ some .directory) :
    (larger.createDirectories path).2 = (tree.createDirectories path).2 ∧
      Extends (tree.createDirectories path).1 (larger.createDirectories path).1 directories files ∧
      ((tree.createDirectories path).2 = true → ∀ d ∈ way tree.working path,
        directories d → (tree.createDirectories path).1.entryAt? d = some .directory) := by
  unfold FileTree.createDirectories at hfiles ⊢
  by_cases hspelled : isSpellable path = true
  · simp only [if_pos hspelled] at hfiles ⊢
    by_cases horigin : tree.entryAt? (startOf tree.working path) = some .directory
    · obtain ⟨hflag, hextends, hstands⟩ :=
        h.ensureAll (Path.startAndPieces path).2 (stands_nil horigin) (Path.reads_startAndPieces path) hfiles
      refine ⟨hflag, hextends, fun hmade d hd _ => ?_⟩
      obtain ⟨goal, hgoal⟩ := hstands hmade
      refine directory_of_mem_visits hgoal.follow hgoal.directory d ?_
      rw [List.nil_append, ← Path.split_eq_lead_append hpath]
      have hsame : (tree.ensureAll (Path.directoriesTo path)).1.working = tree.working :=
        (wrote_ensureAll (Path.directoriesTo path) tree).working
      exact hsame ▸ mem_way_iff.1 hd
    · have hstart := startOf_of_not_directory horigin
      have hlarger : larger.entryAt? (startOf larger.working path) ≠ some .directory := by
        rw [h.working, Ne, h.directory_congr (fun hadded => absurd (hstart ▸ hadded) hworking)]
        exact horigin
      rw [ensureAll_directoriesTo horigin, ensureAll_directoriesTo hlarger]
      refine ⟨rfl, h, fun hmade d hd hadded => ?_⟩
      -- nothing had to be created, so the way ends where it starts
      rw [way_of_directoriesTo_isEmpty hmade, hstart] at hd
      rw [List.mem_singleton.1 hd] at hadded
      exact absurd hadded hworking
  · simp only [if_neg hspelled]
    exact ⟨trivial, h, fun hmade => by cases hmade⟩

/-! ## Writing a file below them -/

theorem directoryOf_ne_nil (path : Text) : directoryOf path ≠ [] := by
  unfold directoryOf
  split
  · exact List.cons_ne_nil _ _
  · decide

/-- **A file is written into a larger tree as into the smaller one**, together with the directories that are missing on
the way to it, if its place is no new directory and no new file is where a directory would come. -/
theorem writeThrough (h : Extends tree larger directories files) (hworking : ¬directories tree.working)
    (hplace : ¬directories (placeOf tree.working path))
    (hfiles : ∀ location, files location → (tree.writeThrough true path content).2.entryAt? location ≠ some .directory) :
    (larger.writeThrough true path content).1 = (tree.writeThrough true path content).1 ∧
      Extends (tree.writeThrough true path content).2 (larger.writeThrough true path content).2 directories files := by
  have hcreated := fun hfiles => h.createDirectories hworking (directoryOf_ne_nil path) hfiles
  have hsame := (wrote_createDirectories tree (directoryOf path)).working
  unfold FileTree.writeThrough at hfiles ⊢
  simp only [if_true] at hfiles ⊢
  generalize tree.createDirectories (directoryOf path) = created at hcreated hfiles hsame ⊢
  generalize larger.createDirectories (directoryOf path) = largerCreated at hcreated ⊢
  obtain ⟨between, made⟩ := created
  obtain ⟨largerBetween, largerMade⟩ := largerCreated
  cases made with
  | false =>
    obtain ⟨rfl, hextends, -⟩ := hcreated hfiles
    exact ⟨rfl, hextends⟩
  | true =>
    have hkeeps := (wrote_writeInto between path content).toKeeps
    obtain ⟨rfl, hextends, hway⟩ := hcreated fun location hfile hdirectory =>
      hfiles location hfile (hkeeps.directories location hdirectory)
    have hworkingSame : between.working = tree.working := hsame
    exact hextends.writeInto (hworkingSame ▸ hway rfl) (hworkingSame ▸ hplace)

end Extends
end FileTree
end IdeExport
