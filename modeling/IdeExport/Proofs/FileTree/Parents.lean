import IdeExport.Proofs.FileTree.Ways
/-!
# The directory of what exists

Where a path leads to something, its parent is a directory (`isDirectory_directoryOf`).  The text of a parent is a
beginning of the text of the path, up to the last name in it, so whoever follows the path stands in the parent before the
last step.  A parent that is not written is the working directory.
-/
namespace IdeExport
namespace Path

theorem prefix_of_split {path other : Text} {rest : List Text}
    (h : Text.split '/' path = Text.split '/' other ++ rest) : other <+: path := by
  rw [← Text.join_split '/' path, h]
  by_cases hrest : rest = []
  · simp [hrest, Text.join_split]
  · rw [Text.join_append _ hrest (Text.split_ne_nil '/' other), Text.join_split]
    exact List.prefix_append _ _

/-- The pieces of a path go on after those of its parent. -/
theorem exists_split_eq_append {path name : Text} {front : List Text}
    (h : dropTrailing (startAndPieces path).2 = front ++ [name]) (hfront : dropTrailing front ≠ []) :
    ∃ rest, rest ≠ [] ∧ Text.split '/' path =
      Text.split '/' (ofPieces (startAndPieces path).1 (dropTrailing front)) ++ rest := by
  obtain ⟨tail, hpieces, -⟩ := exists_dropTrailing_append (startAndPieces path).2
  obtain ⟨more, hmore, -⟩ := exists_dropTrailing_append front
  have hall : (startAndPieces path).2 = dropTrailing front ++ (more ++ ([name] ++ tail)) := by
    rw [hpieces, h, List.append_assoc, ← List.append_assoc (dropTrailing front), ← hmore]
  have hpath : path ≠ [] := by
    rintro rfl
    exact absurd hall (by simp [startAndPieces, Text.split])
  have hreads := (reads_startAndPieces path).mono (hall ▸ List.prefix_append _ _)
  refine ⟨more ++ ([name] ++ tail), by simp, ?_⟩
  rw [split_ofPieces hreads hfront, split_eq_lead_append hpath, hall]
  simp only [List.append_assoc]

end Path

namespace FileTree

variable {tree : FileTree} {location : Location} {path : Text}

theorem isSpellable_of_prefix {other : Text} (h : other <+: path) (hpath : isSpellable path = true) :
    isSpellable other = true := by
  obtain ⟨rest, rfl⟩ := h
  simp only [isSpellable, Bool.and_eq_true, decide_eq_true_eq, List.mem_append, not_or, Text.byteSize_append] at hpath ⊢
  exact ⟨hpath.1.1, by omega⟩

/-- What stands before more pieces of a path that leads somewhere is a directory. -/
theorem isDirectory_of_split {parent : Text} {rest : List Text} (hlocate : tree.locate path = some location)
    (hparent : parent ≠ []) (hrest : rest ≠ []) (hsplit : Text.split '/' path = Text.split '/' parent ++ rest) :
    tree.isDirectory parent = true := by
  have hprefix := Path.prefix_of_split hsplit
  have hhead : parent.head? = path.head? := by
    obtain ⟨c, cs, rfl⟩ := List.exists_cons_of_ne_nil hparent
    obtain ⟨tail, rfl⟩ := hprefix
    rfl
  unfold locate at hlocate
  split at hlocate
  · cases hlocate
  · rename_i hspelled
    obtain ⟨-, hspelled⟩ : path.isEmpty = false ∧ isSpellable path = true := by simpa using hspelled
    rw [hsplit, follow_append, Option.bind_eq_some_iff] at hlocate
    obtain ⟨place, hplace, hrestOfWay⟩ := hlocate
    obtain ⟨piece, pieces, rfl⟩ := List.exists_cons_of_ne_nil hrest
    -- the next piece is read at this place, so it is a directory
    have hdirectory : tree.entryAt? place = some .directory := by
      unfold follow at hrestOfWay
      split at hrestOfWay
      · rename_i hway
        exact hway.1
      · cases hrestOfWay
    have hfound : tree.locate parent = some place := by
      rw [locate, if_neg (by simp [hparent, isSpellable_of_prefix hprefix hspelled]), hhead]
      exact hplace
    simp [isDirectory, at?, hfound, hdirectory]

theorem isDirectory_dot (h : tree.entryAt? tree.working = some .directory) : tree.isDirectory "." = true := by
  have hfound : tree.locate "." = some tree.working := by
    show tree.follow tree.working [['.']] = _
    rw [follow, if_pos ⟨h, by decide⟩]
    rfl
  rw [isDirectory, at?, hfound, Option.bind_some, h]
  rfl

theorem isDirectory_slash (tree : FileTree) : tree.isDirectory "/" = true := rfl

/-- **The parent of what exists is a directory.** -/
theorem isDirectory_directoryOf (h : tree.exists? path = true) (hparent : Path.parent path ≠ none) :
    tree.isDirectory (directoryOf path) = true := by
  obtain ⟨location, hlocate⟩ : ∃ location, tree.locate path = some location := by
    cases hlocate : tree.locate path with
    | none => simp [exists?, at?, hlocate] at h
    | some location => exact ⟨location, rfl⟩
  have horigin : tree.entryAt? (startOf tree.working path) = some .directory := by
    by_contra hnone
    rw [locate_eq_none hnone] at hlocate
    cases hlocate
  have hdot : (Path.startAndPieces path).1 ≠ .root → directoryOf path = "." →
      tree.isDirectory (directoryOf path) = true := by
    intro hstart hdirectory
    rw [startOf, origin, if_neg hstart] at horigin
    rw [hdirectory]
    exact isDirectory_dot horigin
  obtain hnil | ⟨front, name, hnamed⟩ := List.eq_nil_or_concat' (Path.dropTrailing (Path.startAndPieces path).2)
  · cases hstart : (Path.startAndPieces path).1 with
    | root => exact absurd (by simp [Path.parent, hnil, hstart]) hparent
    | name => exact absurd (by simp [Path.parent, hnil, hstart]) hparent
    | dot => exact hdot (by simp [hstart]) (by simp [directoryOf, Path.parent, hnil, hstart])
  · have hwritten := Path.parent_of_dropTrailing hnamed
    by_cases hfront : Path.dropTrailing front = []
    · rw [hfront] at hwritten
      cases hstart : (Path.startAndPieces path).1 with
      | root =>
        have hdirectory : directoryOf path = "/" := by
          rw [directoryOf, hwritten, hstart]
          rfl
        rw [hdirectory]
        exact isDirectory_slash tree
      | name => exact hdot (by simp [hstart]) (by rw [directoryOf, hwritten, hstart]; rfl)
      | dot => exact hdot (by simp [hstart]) (by rw [directoryOf, hwritten, hstart]; rfl)
    · obtain ⟨rest, hrest, hsplit⟩ := Path.exists_split_eq_append hnamed hfront
      obtain ⟨parent, hfound, hne, -⟩ := Path.exists_parent hnamed fun _ => hfront
      rw [hwritten] at hfound
      obtain rfl := Option.some.inj hfound
      have hdirectory : directoryOf path = Path.ofPieces (Path.startAndPieces path).1 (Path.dropTrailing front) := by
        rw [directoryOf, hwritten]
        obtain ⟨c, cs, hcs⟩ := List.exists_cons_of_ne_nil hne
        rw [hcs]
      rw [hdirectory]
      exact isDirectory_of_split hlocate hne hrest hsplit

end FileTree
end IdeExport
