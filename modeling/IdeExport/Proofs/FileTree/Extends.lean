import IdeExport.Proofs.FileTree.Effects
import IdeExport.Proofs.FileTree.Ways
/-!
# Writing into a larger tree

A tree may have directories and files where another one has nothing (`Extends`).  At each location there are five ways in
which that can be (`Grown`), and what is put there takes one to another.  A write into a directory does the same in both
trees, and leaves trees that differ no more than before, if none of the additional directories is on its way or at its
place (`Extends.writeInto`).
-/
namespace IdeExport
namespace FileTree

variable {tree larger before after : FileTree} {directories files : Location → Prop} {location : Location} {path content : Text}

/-- What is at a location of a tree and of a larger one, where it may be that the larger one has a directory there, or a
file, and the other one has nothing. -/
inductive Grown (directory file : Prop) : Option Entry → Option Entry → Prop
  | nothing (hdirectory : ¬directory) : Grown directory file none none
  | newDirectory (hdirectory : directory) : Grown directory file none (some .directory)
  | newFile {content : Text} (hdirectory : ¬directory) (hfile : file) : Grown directory file none (some (.file content))
  | directory : Grown directory file (some .directory) (some .directory)
  | file {content other : Text} (hdirectory : ¬directory) :
    Grown directory file (some (.file content)) (some (.file other))

/-- A tree that has these directories and at most these files where another one has nothing. -/
structure Extends (tree larger : FileTree) (directories files : Location → Prop) : Prop where
  working : larger.working = tree.working
  grown : ∀ location, Grown (directories location) (files location) (tree.entryAt? location) (larger.entryAt? location)

theorem Grown.directory_iff {directory file : Prop} {entry other : Option Entry}
    (h : Grown directory file entry other) :
    other = some .directory ↔ entry = some .directory ∨ directory ∧ entry = none := by
  cases h <;> simp [*]

theorem Grown.mono {directory file file' : Prop} {entry other : Option Entry} (h : Grown directory file entry other)
    (hfile : file → file') : Grown directory file' entry other := by
  cases h with
  | nothing hdirectory => exact .nothing hdirectory
  | newDirectory hdirectory => exact .newDirectory hdirectory
  | newFile hdirectory hnew => exact .newFile hdirectory (hfile hnew)
  | directory => exact .directory
  | file hdirectory => exact .file hdirectory

theorem Grown.trans {directory file directory' file' : Prop} {entry between other : Option Entry}
    (h : Grown directory file entry between) (h' : Grown directory' file' between other) :
    Grown (directory ∨ directory') (file ∨ file') entry other := by
  cases h with
  | nothing hdirectory =>
    cases h' with
    | nothing hdirectory' => exact .nothing (not_or.2 ⟨hdirectory, hdirectory'⟩)
    | newDirectory hdirectory' => exact .newDirectory (Or.inr hdirectory')
    | newFile hdirectory' hfile' => exact .newFile (not_or.2 ⟨hdirectory, hdirectory'⟩) (Or.inr hfile')
  | newDirectory hdirectory =>
    cases h'
    exact .newDirectory (Or.inl hdirectory)
  | newFile hdirectory hfile =>
    cases h' with
    | file hdirectory' => exact .newFile (not_or.2 ⟨hdirectory, hdirectory'⟩) (Or.inl hfile)
  | directory =>
    cases h'
    exact .directory
  | file hdirectory =>
    cases h' with
    | file hdirectory' => exact .file (not_or.2 ⟨hdirectory, hdirectory'⟩)

namespace Extends

theorem refl (tree : FileTree) : Extends tree tree (fun _ => False) (fun _ => False) := by
  refine ⟨rfl, fun location => ?_⟩
  cases tree.entryAt? location with
  | none => exact .nothing id
  | some entry =>
    cases entry with
    | directory => exact .directory
    | file content => exact .file id

theorem trans {between : FileTree} {directories' files' : Location → Prop}
    (h : Extends tree between directories files) (h' : Extends between larger directories' files') :
    Extends tree larger (fun location => directories location ∨ directories' location)
      (fun location => files location ∨ files' location) :=
  ⟨h'.working.trans h.working, fun location => (h.grown location).trans (h'.grown location)⟩

theorem mono {files' : Location → Prop} (h : Extends tree larger directories files)
    (hfiles : ∀ location, files location → files' location) : Extends tree larger directories files' :=
  ⟨h.working, fun location => (h.grown location).mono (hfiles location)⟩

theorem keeps (h : Extends tree larger directories files) : Keeps tree larger :=
  ⟨h.working, fun location hdirectory => (h.grown location).directory_iff.2 (Or.inl hdirectory)⟩

theorem directory_congr (h : Extends tree larger directories files)
    (hlocation : directories location → tree.entryAt? location = some .directory) :
    larger.entryAt? location = some .directory ↔ tree.entryAt? location = some .directory :=
  (h.grown location).directory_iff.trans (or_iff_left_of_imp fun hadded => hlocation hadded.1)

/-! ## Putting an entry -/

theorem put_both (h : Extends tree larger directories files) {entry other : Entry} (hne : location ≠ [])
    (hhere : Grown (directories location) (files location) (some entry) (some other)) :
    Extends (tree.put location entry) (larger.put location other) directories files := by
  refine ⟨h.working, fun place => ?_⟩
  by_cases hplace : place = location
  · rw [hplace, entryAt?_put_self hne, entryAt?_put_self hne]
    exact hhere
  · rw [entryAt?_put_of_ne hplace, entryAt?_put_of_ne hplace]
    exact h.grown place

/-- An additional directory is not one any more when the smaller tree gets it too. -/
theorem put_directory (h : Extends tree larger directories files) (hne : location ≠ [])
    (hdirectory : larger.entryAt? location = some .directory) :
    Extends (tree.put location .directory) larger directories files := by
  refine ⟨h.working, fun place => ?_⟩
  by_cases hplace : place = location
  · rw [hplace, entryAt?_put_self hne, hdirectory]
    exact .directory
  · rw [entryAt?_put_of_ne hplace]
    exact h.grown place

/-! ## Writing a file -/

/-- **A write does the same in a larger tree** that has no new directory on the way to the directory of its path or at
the place of its path. -/
theorem writeInto (h : Extends tree larger directories files)
    (hway : ∀ d ∈ way tree.working (directoryOf path), directories d → tree.entryAt? d = some .directory)
    (hplace : ¬directories (placeOf tree.working path)) :
    (larger.writeInto path content).1 = (tree.writeInto path content).1 ∧
      Extends (tree.writeInto path content).2 (larger.writeInto path content).2 directories files := by
  have hdirectories : ∀ d ∈ way tree.working (directoryOf path),
      (larger.entryAt? d = some .directory ↔ tree.entryAt? d = some .directory) :=
    fun d hd => h.directory_congr (hway d hd)
  have hplaceIff := h.directory_congr (fun hadded => absurd hadded hplace)
  have hdirectoryOf : larger.locate (directoryOf path) = tree.locate (directoryOf path) :=
    locate_congr h.working hdirectories
  have hlocate : larger.locate path = tree.locate path := by
    refine locate_congr h.working fun d hd => ?_
    rcases mem_way_cases hd with hd | rfl
    · exact hdirectories d hd
    · exact hplaceIff
  have hisDirectory : larger.isDirectory (directoryOf path) = tree.isDirectory (directoryOf path) := by
    unfold isDirectory at?
    rw [hdirectoryOf]
    cases hgoal : tree.locate (directoryOf path) with
    | none => rfl
    | some goal =>
      have hgoalIff := hdirectories goal (eq_placeOf_of_locate hgoal ▸ placeOf_mem_way _ _)
      simp only [Option.bind_some, hgoalIff]
  have hfresh : larger.freshPath (directoryOf path) = tree.freshPath (directoryOf path) := by
    unfold freshPath
    rw [h.working]
  -- all that a write looks at is the same in both trees
  unfold FileTree.writeInto
  rw [hisDirectory, hfresh]
  split
  · unfold replace
    rw [hlocate]
    cases hgoal : tree.locate path with
    | none => exact ⟨rfl, h⟩
    | some goal =>
      obtain rfl := eq_placeOf_of_locate hgoal
      simp only [hplaceIff]
      split
      · exact ⟨rfl, h⟩
      · rename_i hfree
        exact ⟨rfl, h.put_both (ne_nil_of_entryAt?_ne hfree) (.file hplace)⟩
  · exact ⟨rfl, h⟩

end Extends

/-! ## What has been written -/

/-- The locations where a tree has a directory and an earlier one has nothing. -/
def newDirectories (before after : FileTree) : List Location :=
  (after.entries.map (·.1)).filter
    fun location => before.entryAt? location = none ∧ after.entryAt? location = some .directory

theorem mem_newDirectories_iff : location ∈ newDirectories before after ↔
    before.entryAt? location = none ∧ after.entryAt? location = some .directory := by
  rw [newDirectories, List.mem_filter, decide_eq_true_eq, and_iff_right_iff_imp]
  rintro ⟨hbefore, hafter⟩
  have hroot : location ≠ [] := ne_nil_of_entryAt?_eq_none hbefore
  have hlookup : after.entries.lookup location = some .directory := by simpa [entryAt?, hroot] using hafter
  obtain ⟨front, rest, hentries, -⟩ := List.lookup_eq_some_iff.1 hlookup
  rw [hentries]
  exact List.mem_map.2 ⟨(location, .directory), by simp, rfl⟩

theorem Wrote.extends {files : List (Text × Text)} (h : Wrote before after files) :
    Extends before after (· ∈ newDirectories before after)
      (fun location => before.entryAt? location = none ∧ ∃ file ∈ files, after.locate file.1 = some location) := by
  refine ⟨h.working, fun location => ?_⟩
  have hfile := h.fileAt? location
  simp only [mem_newDirectories_iff]
  cases hbefore : before.entryAt? location with
  | none =>
    cases hafter : after.entryAt? location with
    | none => exact .nothing (by simp)
    | some entry =>
      cases entry with
      | directory => exact .newDirectory ⟨rfl, rfl⟩
      | file content =>
        refine .newFile (by simp) ⟨rfl, ?_⟩
        by_contra hnone
        push Not at hnone
        simp [FileTree.fileAt?, hbefore, hafter, lastAt?_eq_none hnone] at hfile
  | some entry =>
    cases entry with
    | directory =>
      rw [h.directories location hbefore]
      exact .directory
    | file content =>
      have hsome : (before.fileAt? location).isSome = true := by rw [fileAt?_eq_some_iff.2 hbefore]; rfl
      obtain ⟨other, hother⟩ := Option.isSome_iff_exists.1 (h.isSome_of_isSome hsome)
      rw [fileAt?_eq_some_iff.1 hother]
      exact .file (by simp)

end FileTree
end IdeExport
