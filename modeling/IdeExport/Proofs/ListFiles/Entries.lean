import IdeExport.Proofs.ListFiles.Placement
import Mathlib.Data.List.Forall2
/-!
# Where the entries of list files lead

The entry of a list file spells its path anew: the home directory, then the steps from there.  It still leads to the
file, also to one outside the home directory, as long as the home directory itself does not go up
(`resolve_placedPath`).  No file that is kept is lost and none is shown more often than it is named
(`entries_lead_to_files`).
-/
namespace IdeExport
namespace ListFiles

variable {settings : BuildSettings} {includeRoot : Bool}

/-- The list files that have a place, each as often as it is named. -/
def keptFiles (settings : BuildSettings) (includeRoot : Bool) (files : List Text) : List Text :=
  files.filter (fun file => (placement? settings includeRoot file).isSome)

def directoryLabels (settings : BuildSettings) (file : Text) : List Text :=
  (Path.components (Path.relativeTo settings.homeDirectory file)).dropLast

theorem forall₂_placements : ∀ files : List Text,
    List.Forall₂ (fun file placement => placement? settings includeRoot file = some placement)
      (keptFiles settings includeRoot files) (placements settings includeRoot files)
  | [] => List.Forall₂.nil
  | file :: files => by
    have ih := forall₂_placements files
    unfold keptFiles placements at ih ⊢
    cases hfile : placement? settings includeRoot file with
    | none => rwa [List.filter_cons_of_neg (by simp [hfile]), List.filterMap_cons_none hfile]
    | some placement =>
      rw [List.filter_cons_of_pos (by simp [hfile]), List.filterMap_cons_some hfile]
      exact List.Forall₂.cons hfile ih

/-- **The path of a placed file leads to the file.** -/
theorem resolve_placedPath (hhome : Path.stepUp ∉ Path.components settings.homeDirectory) {file : Text}
    {placement : List Text × Text} (h : placement? settings includeRoot file = some placement) :
    Path.resolve (placedPath settings placement) = Path.resolve file := by
  have hsteps : placement.1 ++ [placement.2] = Path.stepsFrom settings.homeDirectory file := by
    rw [components_of_placement h, Path.components_relativeTo]
  calc Path.resolve (placedPath settings placement)
      = Path.walk [] (Path.components settings.homeDirectory ++ Path.stepsFrom settings.homeDirectory file) := by
        rw [Path.resolve, components_placedPath h, hsteps]
    _ = Path.walk (Path.components settings.homeDirectory) (Path.stepsFrom settings.homeDirectory file) := by
        rw [Path.walk_append, Path.walk_of_not_mem _ hhome, List.nil_append]
    _ = Path.resolve file := Path.walk_stepsFrom hhome

theorem labels_of_placement {file : Text} {placement : List Text × Text}
    (h : placement? settings includeRoot file = some placement) : placement.1 = directoryLabels settings file := by
  rw [directoryLabels, ← components_of_placement h, List.dropLast_concat]

/-- **Every kept list file has an entry of its own that leads to it**, and there are no other entries.  The folder of
the entry is made of the directories on the way to the file. -/
theorem entries_lead_to_files (includeRoot : Bool) (files : List Text)
    (hhome : Path.stepUp ∉ Path.components settings.homeDirectory) :
    ∃ entries : List FolderEntry,
      ((folders settings includeRoot files).entries (entryBase settings)).Perm entries ∧
      List.Forall₂
        (fun file entry => Path.resolve entry.path = Path.resolve file ∧
          entry.folder = "CMake Files\\" ++ Text.terminated "\\" (directoryLabels settings file))
        (keptFiles settings includeRoot files) entries := by
  refine ⟨_, Folder.entries_ofInsertions (entryBase settings) (placements settings includeRoot files), ?_⟩
  rw [List.forall₂_map_right_iff]
  refine (forall₂_placements files).imp (fun file placement hplacement => ⟨?_, ?_⟩)
  · exact resolve_placedPath hhome hplacement
  · rw [← labels_of_placement hplacement]
    rfl

/-- A home directory spelled with a slash too many, and files below it, beside it and far from it. -/
theorem entries_lead_to_files_spellings :
    let settings : BuildSettings := { homeDirectory := "/s//app/", homeOutputDirectory := "/b" }
    let files : List Text := ["/s/app/lib/./CMakeLists.txt", "/s/app/../x/y.cmake", "/opt/z.cmake", "/opt/z.cmake"]
    Path.stepUp ∉ Path.components settings.homeDirectory ∧
    ∃ entries : List FolderEntry,
      ((folders settings false files).entries (entryBase settings)).Perm entries ∧
      List.Forall₂
        (fun file entry => Path.resolve entry.path = Path.resolve file ∧
          entry.folder = "CMake Files\\" ++ Text.terminated "\\" (directoryLabels settings file))
        files entries :=
  ⟨by decide, entries_lead_to_files false
    ["/s/app/lib/./CMakeLists.txt", "/s/app/../x/y.cmake", "/opt/z.cmake", "/opt/z.cmake"] (by decide)⟩

end ListFiles
end IdeExport
