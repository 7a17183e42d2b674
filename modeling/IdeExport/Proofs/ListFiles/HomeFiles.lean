import IdeExport.Proofs.Folder.Arrangement
import IdeExport.Proofs.ListFiles.Kept
/-!
# List files in the home directory

A list file in the home directory itself has no labels: it goes to the files of the top folder and changes no folder
below.  So the folders are the same with these files and without them, and their entries come before all others, in the
order of the files (`listEntries_includeRoot`).
-/
namespace IdeExport

/-! ## Files without labels -/

namespace Folder

/-- Files without labels make no difference to the folders inside. -/
theorem folders_ofInsertions (insertions : List (List Text × Text)) :
    (ofInsertions insertions).folders = (ofInsertions (insertions.filter (·.1 ≠ []))).folders := by
  rw [folders_eq_map, folders_eq_map, firstLabels_filter]
  refine List.map_congr_left (fun label _ => ?_)
  rw [grownAt, grownAt, through_filter]

theorem declaration_eq_of_folders_eq {f g : Folder} (h : f.folders = g.folders) : f.declaration = g.declaration := by
  obtain ⟨label, files, folders⟩ := f
  obtain ⟨label', files', folders'⟩ := g
  have hfolders : folders = folders' := h
  rw [declaration, declaration, paths, paths, pathsBelow, pathsBelow, hfolders]

theorem entries_ofInsertions_eq_append (directory : Text) (insertions : List (List Text × Text)) :
    (ofInsertions insertions).entries directory =
      (insertions.filter (·.1 = [])).map (placed [] directory) ++
        (ofInsertions (insertions.filter (·.1 ≠ []))).entries directory := by
  have hnone : (insertions.filter (·.1 ≠ [])).filter (·.1 = []) = [] := by
    rw [List.filter_filter, List.filter_eq_nil_iff]
    simp
  rw [entries_eq_map, entries_eq_map, contents_ofInsertions, contents_ofInsertions (insertions.filter (·.1 ≠ [])), hnone,
    firstLabels_filter, List.map_append, List.nil_append]
  simp only [through_filter]

end Folder

namespace ListFiles

variable {settings : BuildSettings} {file : Text}

/-! ## Places without labels -/

/-- Only files without labels are placed with `includeRoot` and not without it. -/
theorem placement?_false (settings : BuildSettings) (file : Text) :
    placement? settings false file = (placement? settings true file).filter (·.1 ≠ []) := by
  apply Option.ext
  rintro ⟨labels, name⟩
  rw [Option.filter_eq_some_iff, placement?_eq_some_iff, placement?_eq_some_iff]
  simp only [Bool.false_eq_true, imp_false, implies_true, and_true, decide_eq_true_eq, ne_eq, and_assoc]

theorem placements_false (settings : BuildSettings) (files : List Text) :
    placements settings false files = (placements settings true files).filter (·.1 ≠ []) := by
  rw [placements, placements, List.filter_filterMap]
  congr 1
  funext file
  exact placement?_false settings file

theorem folders_false (settings : BuildSettings) (files : List Text) :
    folders settings false files = .ofInsertions ((placements settings true files).filter (·.1 ≠ [])) := by
  rw [← placements_false]
  rfl

/-- The list files in the home directory itself that no rule leaves out but the one on these files. -/
def homeFiles (settings : BuildSettings) (files : List Text) : List Text :=
  (keptFiles settings true files).filter
    (fun file => (Path.components (Path.relativeTo settings.homeDirectory file)).length = 1)

theorem labels_eq_nil_iff {includeRoot : Bool} {placement : List Text × Text}
    (h : placement? settings includeRoot file = some placement) :
    placement.1 = [] ↔ (Path.components (Path.relativeTo settings.homeDirectory file)).length = 1 := by
  rw [← components_of_placement h, List.length_append, List.length_singleton, Nat.add_eq_right,
    List.length_eq_zero_iff]

theorem entries_homeFiles (settings : BuildSettings) (files : List Text) :
    (homeFiles settings files).map (entryOf settings) =
      ((placements settings true files).filter (·.1 = [])).map (Folder.placed [] (entryBase settings)) := by
  have hhome : List.Forall₂ (fun file placement => placement? settings true file = some placement)
      (homeFiles settings files) ((placements settings true files).filter (·.1 = [])) := by
    refine List.rel_filter (fun file placement h => ?_) (forall₂_placements files)
    show decide _ = true ↔ decide _ = true
    rw [decide_eq_true_eq, decide_eq_true_eq]
    exact (labels_eq_nil_iff h).symm
  rw [← List.forall₂_eq_eq_eq, List.forall₂_map_left_iff, List.forall₂_map_right_iff]
  exact hhome.imp (fun file placement h => (placed_of_placement h).symm)

/-! ## Entries -/

/-- **The entries of list files in the home directory come before all others**, which stay as they are. -/
theorem listEntries_includeRoot (settings : BuildSettings) (files : List Text) :
    listEntries settings true files =
      (homeFiles settings files).map (entryOf settings) ++ listEntries settings false files := by
  rw [entries_homeFiles, listEntries, listEntries, folders_false]
  exact Folder.entries_ofInsertions_eq_append (entryBase settings) (placements settings true files)

theorem declaration_includeRoot (settings : BuildSettings) (files : List Text) :
    (folders settings true files).declaration = (folders settings false files).declaration := by
  rw [folders_false]
  exact Folder.declaration_eq_of_folders_eq (Folder.folders_ofInsertions (placements settings true files))

theorem folder_of_mem_homeFiles {files : List Text} (h : file ∈ homeFiles settings files) :
    (entryOf settings file).folder = "CMake Files\\" := by
  have hlength := (List.mem_filter.1 h).2
  have hlabels : directoryLabels settings file = [] := by
    rw [decide_eq_true_eq] at hlength
    rw [directoryLabels, ← List.length_eq_zero_iff, List.length_dropLast, hlength]
  rw [entryOf, hlabels]
  rfl

theorem folder_of_mem_listEntries {files : List Text} {entry : FolderEntry}
    (h : entry ∈ listEntries settings false files) : entry.folder ≠ "CMake Files\\" := by
  obtain ⟨file, hfile, rfl⟩ := List.mem_map.1 ((listEntries_perm settings false files).mem_iff.1 h)
  obtain ⟨placement, hplacement⟩ := Option.isSome_iff_exists.1 (List.mem_filter.1 hfile).2
  have hlabels : directoryLabels settings file ≠ [] := by
    rw [← labels_of_placement hplacement]
    exact fun hnil => Bool.false_ne_true ((placement?_eq_some_iff.1 hplacement).2.2.2 hnil)
  intro hfolder
  have hnil : Text.terminated "\\" (directoryLabels settings file) = [] :=
    List.append_cancel_left (hfolder.trans (List.append_nil _).symm)
  obtain ⟨label, labels, hcons⟩ := List.exists_cons_of_ne_nil hlabels
  rw [hcons, Text.terminated_cons] at hnil
  have hslash := (List.append_eq_nil_iff.1 (List.append_eq_nil_iff.1 hnil).2).1
  revert hslash
  decide

end ListFiles
end IdeExport
