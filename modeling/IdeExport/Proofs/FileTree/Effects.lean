import IdeExport.Proofs.FileTree.Writing
import Mathlib.Data.List.Find
/-!
# What writing does to the files of a tree

After some files have been written, in whatever way and with whatever failures in between, every location holds the last
of them that lies there, or else what it held before (`Wrote`).  One write is such an effect, of one file or of none
(`wrote_write`), and effects compose (`Wrote.trans`).
-/
namespace IdeExport
namespace FileTree

variable {tree before between after : FileTree} {location : Location} {path content : Text}

def fileAt? (tree : FileTree) (location : Location) : Option Text :=
  match tree.entryAt? location with
  | some (.file content) => some content
  | _ => none

theorem fileAt?_eq_some_iff : tree.fileAt? location = some content ↔ tree.entryAt? location = some (.file content) := by
  unfold fileAt?
  cases tree.entryAt? location with
  | none => simp
  | some entry => cases entry <;> simp

/-- The content of the last of some files, given by paths and contents, that lies at a location. -/
def lastAt? (tree : FileTree) (files : List (Text × Text)) (location : Location) : Option Text :=
  (files.reverse.find? (fun file => tree.locate file.1 = some location)).map (·.2)

/-- The effect of writing some files, in this order. -/
structure Wrote (before after : FileTree) (files : List (Text × Text)) : Prop extends Keeps before after where
  located : ∀ file ∈ files, ∃ location, after.locate file.1 = some location
  fileAt? : ∀ location, after.fileAt? location = (after.lastAt? files location).or (before.fileAt? location)

/-! ## Composing effects -/

theorem lastAt?_append (tree : FileTree) (files others : List (Text × Text)) (location : Location) :
    tree.lastAt? (files ++ others) location = (tree.lastAt? others location).or (tree.lastAt? files location) := by
  unfold lastAt?
  rw [List.reverse_append, List.find?_append, Option.map_or]

theorem Keeps.lastAt? (h : Keeps between after) {files : List (Text × Text)}
    (hlocated : ∀ file ∈ files, ∃ location, between.locate file.1 = some location) (location : Location) :
    after.lastAt? files location = between.lastAt? files location := by
  have hlocate : ∀ file ∈ files, after.locate file.1 = between.locate file.1 := by
    intro file hfile
    obtain ⟨place, hplace⟩ := hlocated file hfile
    rw [hplace, h.locate hplace]
  unfold FileTree.lastAt?
  rw [List.find?_congr fun file hfile => by rw [hlocate file (List.mem_reverse.1 hfile)]]

theorem Wrote.refl (tree : FileTree) : Wrote tree tree [] where
  toKeeps := .refl tree
  located := fun _ hfile => absurd hfile List.not_mem_nil
  fileAt? := fun _ => rfl

theorem Wrote.trans {files others : List (Text × Text)} (h : Wrote before between files)
    (h' : Wrote between after others) : Wrote before after (files ++ others) where
  toKeeps := h.toKeeps.trans h'.toKeeps
  located := by
    intro file hfile
    rcases List.mem_append.1 hfile with hfile | hfile
    · obtain ⟨place, hplace⟩ := h.located file hfile
      exact ⟨place, h'.locate hplace⟩
    · exact h'.located file hfile
  fileAt? := by
    intro location
    rw [h'.fileAt?, h.fileAt?, lastAt?_append, Option.or_assoc, h'.toKeeps.lastAt? h.located]

/-! ## What an effect leaves -/

theorem lastAt?_eq_none {files : List (Text × Text)} (h : ∀ file ∈ files, tree.locate file.1 ≠ some location) :
    tree.lastAt? files location = none := by
  have hnone : files.reverse.find? (fun file => tree.locate file.1 = some location) = none :=
    List.find?_eq_none.2 fun file hfile => by simpa using h file (List.mem_reverse.1 hfile)
  rw [lastAt?, hnone, Option.map_none]

theorem Wrote.fileAt?_of_ne {files : List (Text × Text)} (h : Wrote before after files)
    (hne : ∀ file ∈ files, after.locate file.1 ≠ some location) : after.fileAt? location = before.fileAt? location := by
  rw [h.fileAt?, lastAt?_eq_none hne, Option.none_or]

theorem Wrote.isSome_fileAt? {files : List (Text × Text)} (h : Wrote before after files) {file : Text × Text}
    (hfile : file ∈ files) (hlocate : after.locate file.1 = some location) : (after.fileAt? location).isSome = true := by
  have hfound : (files.reverse.find? (fun file => after.locate file.1 = some location)).isSome = true :=
    List.find?_isSome.2 ⟨file, List.mem_reverse.2 hfile, by simpa using hlocate⟩
  rw [h.fileAt?, Option.isSome_or, FileTree.lastAt?, Option.isSome_map, hfound, Bool.true_or]

theorem Wrote.isSome_of_isSome {files : List (Text × Text)} (h : Wrote before after files)
    (hbefore : (before.fileAt? location).isSome = true) : (after.fileAt? location).isSome = true := by
  rw [h.fileAt?, Option.isSome_or, hbefore, Bool.or_true]

/-! ## Putting an entry -/

theorem wrote_file (hlocate : tree.locate path = some location) (hfree : tree.entryAt? location ≠ some .directory) :
    Wrote tree (tree.put location (.file content)) [(path, content)] where
  toKeeps := keeps_put hfree
  located := fun file hfile => ⟨location, by rw [List.mem_singleton.1 hfile]; exact locate_put hfree hlocate⟩
  fileAt? := by
    intro other
    have hput : (tree.put location (.file content)).locate path = some location := locate_put hfree hlocate
    by_cases hother : other = location
    · subst hother
      simp [FileTree.fileAt?, lastAt?, entryAt?_put_self (ne_nil_of_entryAt?_ne hfree), hput]
    · have hlast : lastAt? (tree.put location (.file content)) [(path, content)] other = none := by
        simp [lastAt?, hput, Ne.symm hother]
      rw [hlast, Option.none_or, FileTree.fileAt?, FileTree.fileAt?, entryAt?_put_of_ne hother]

theorem wrote_directory (hfree : tree.entryAt? location = none) : Wrote tree (tree.put location .directory) [] where
  toKeeps := keeps_put (by simp [hfree])
  located := fun _ hfile => absurd hfile List.not_mem_nil
  fileAt? := by
    intro other
    show _ = tree.fileAt? other
    by_cases hother : other = location
    · rw [hother, FileTree.fileAt?, FileTree.fileAt?, entryAt?_put_self (ne_nil_of_entryAt?_eq_none hfree), hfree]
    · rw [FileTree.fileAt?, FileTree.fileAt?, entryAt?_put_of_ne hother]

/-! ## Creating directories -/

theorem ensureDirectory_cases {path : Text} (h : tree.ensureDirectory path = some after) :
    ∃ location, tree.locate path = some location ∧
      (tree.entryAt? location = some .directory ∧ after = tree ∨
        tree.entryAt? location = none ∧ after = tree.put location .directory) := by
  unfold ensureDirectory at h
  split at h
  · cases h
  · rename_i location hlocate
    refine ⟨location, hlocate, ?_⟩
    split at h
    · rename_i hdirectory
      exact Or.inl ⟨hdirectory, (Option.some.inj h).symm⟩
    · cases h
    · rename_i hnone
      exact Or.inr ⟨hnone, (Option.some.inj h).symm⟩

theorem wrote_ensureAll : ∀ (paths : List Text) (tree : FileTree), Wrote tree (tree.ensureAll paths).1 []
  | [], tree => .refl tree
  | path :: paths, tree => by
    unfold ensureAll
    split
    · exact .refl tree
    · rename_i between hensure
      have hrest := wrote_ensureAll paths between
      obtain ⟨location, -, ⟨-, rfl⟩ | ⟨hnone, rfl⟩⟩ := ensureDirectory_cases hensure
      · exact hrest
      · exact (wrote_directory hnone).trans hrest

theorem wrote_createDirectories (tree : FileTree) (path : Text) : Wrote tree (tree.createDirectories path).1 [] := by
  unfold createDirectories
  split
  · exact wrote_ensureAll _ tree
  · exact .refl tree

/-! ## Writing a file -/

def writtenFiles (path content : Text) : Except WriteError WriteResult → List (Text × Text)
  | .ok .written => [(path, content)]
  | _ => []

theorem wrote_writeInto (tree : FileTree) (path content : Text) :
    Wrote tree (tree.writeInto path content).2 (writtenFiles path content (tree.writeInto path content).1) := by
  rcases writeInto_cases tree path content with ⟨error, hwrite⟩ | ⟨location, hlocate, hfree, hwrite⟩
  · rw [hwrite]
    exact .refl tree
  · rw [hwrite]
    exact wrote_file hlocate hfree

theorem wrote_writeThrough (tree : FileTree) (createParents : Bool) (path content : Text) :
    Wrote tree (tree.writeThrough createParents path content).2
      (writtenFiles path content (tree.writeThrough createParents path content).1) := by
  have hcreated := wrote_createDirectories tree (directoryOf path)
  obtain ⟨-, hwrite⟩ | ⟨-, hwrite | hwrite⟩ := writeThrough_cases tree createParents path content
  · rw [hwrite]
    exact wrote_writeInto tree path content
  · rw [hwrite]
    exact hcreated
  · rw [hwrite]
    exact hcreated.trans (wrote_writeInto _ path content)

/-- **A write changes no file but its own**, and that one only if it says so. -/
theorem wrote_write (tree : FileTree) (rules : WriteRules) (path content : Text) :
    Wrote tree (tree.write rules path content).2 (writtenFiles path content (tree.write rules path content).1) := by
  obtain ⟨-, hwrite⟩ | ⟨-, hwrite⟩ := write_cases tree rules path content
  · rw [hwrite]
    exact .refl tree
  · rw [hwrite]
    exact wrote_writeThrough tree rules.createParents path content

theorem write_eq_ok {rules : WriteRules} (halways : rules.overwrite = .always) {result : WriteResult}
    (h : (tree.write rules path content).1 = .ok result) : result = .written := by
  cases result with
  | written => rfl
  | skipped =>
    rw [(write_eq_skipped_iff.1 h).1] at halways
    cases halways

end FileTree
end IdeExport
