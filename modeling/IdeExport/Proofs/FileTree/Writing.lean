import IdeExport.FileTree
/-!
# Writing into a file tree

What a write does comes down to one place: either nothing has changed, or there is a file at the place that the path
names and everything else is as before (`writeInto_cases`).  That place is no directory, so putting a file there leaves
all ways through the tree open, the path still names it, and reading gives what was written (`read?_put`).
-/
namespace IdeExport
namespace FileTree

variable {tree : FileTree} {location : Location} {rules : WriteRules} {path content : Text}

/-- The root is a directory, so what is none is elsewhere. -/
theorem ne_nil_of_entryAt?_ne (h : tree.entryAt? location ≠ some .directory) : location ≠ [] := by
  rintro rfl
  exact h rfl

theorem ne_nil_of_entryAt?_eq_none (h : tree.entryAt? location = none) : location ≠ [] := by
  have hfree : tree.entryAt? location ≠ some .directory := by simp [h]
  exact ne_nil_of_entryAt?_ne hfree

/-- A tree in which every directory of another one is still there. -/
structure Keeps (before after : FileTree) : Prop where
  working : after.working = before.working
  directories : ∀ location, before.entryAt? location = some .directory → after.entryAt? location = some .directory

theorem Keeps.refl (tree : FileTree) : Keeps tree tree := ⟨rfl, fun _ h => h⟩

theorem Keeps.trans {before between after : FileTree} (h : Keeps before between) (h' : Keeps between after) :
    Keeps before after :=
  ⟨h'.working.trans h.working, fun location hdirectory => h'.directories location (h.directories location hdirectory)⟩

/-- Ways through directories that are still there are open. -/
theorem Keeps.follow {before after : FileTree} (h : Keeps before after) : ∀ {pieces : List Text} {start goal : Location},
    before.follow start pieces = some goal → after.follow start pieces = some goal
  | [], _, _, hgoal => hgoal
  | piece :: pieces, start, goal, hgoal => by
    unfold FileTree.follow at hgoal ⊢
    split at hgoal
    · rename_i hway
      rw [if_pos ⟨h.directories start hway.1, hway.2⟩]
      exact h.follow hgoal
    · cases hgoal

theorem Keeps.locate {before after : FileTree} (h : Keeps before after) {path : Text} {goal : Location}
    (hgoal : before.locate path = some goal) : after.locate path = some goal := by
  unfold FileTree.locate at hgoal ⊢
  split at hgoal
  · cases hgoal
  · rename_i hspelled
    rw [if_neg hspelled, h.working]
    exact h.follow hgoal

theorem keeps_put {entry : Entry} (hfree : tree.entryAt? location ≠ some .directory) :
    Keeps tree (tree.put location entry) := by
  refine ⟨rfl, fun other hother => ?_⟩
  have hne : other ≠ location := by
    rintro rfl
    exact hfree hother
  exact (entryAt?_put_of_ne hne).trans hother

theorem locate_put {entry : Entry} {path : Text} {goal : Location} (hfree : tree.entryAt? location ≠ some .directory)
    (h : tree.locate path = some goal) : (tree.put location entry).locate path = some goal :=
  (keeps_put hfree).locate h

theorem read?_put {path content : Text} (hlocate : tree.locate path = some location)
    (hfree : tree.entryAt? location ≠ some .directory) :
    (tree.put location (.file content)).read? path = some content := by
  rw [read?, at?, locate_put hfree hlocate, Option.bind_some, entryAt?_put_self (ne_nil_of_entryAt?_ne hfree)]

/-- **A write into a directory fails and changes nothing, or puts a file at the place of its path.** -/
theorem writeInto_cases (tree : FileTree) (path content : Text) :
    (∃ error, tree.writeInto path content = (.error error, tree)) ∨
    ∃ location, tree.locate path = some location ∧ tree.entryAt? location ≠ some .directory ∧
      tree.writeInto path content = (.ok .written, tree.put location (.file content)) := by
  unfold writeInto
  split
  · unfold replace
    cases hlocate : tree.locate path with
    | none => exact Or.inl ⟨_, rfl⟩
    | some location =>
      by_cases hdirectory : tree.entryAt? location = some .directory
      · simp only [if_pos hdirectory]
        exact Or.inl ⟨_, rfl⟩
      · simp only [if_neg hdirectory]
        exact Or.inr ⟨location, rfl, hdirectory, rfl⟩
  · exact Or.inl ⟨_, rfl⟩

theorem write_cases (tree : FileTree) (rules : WriteRules) (path content : Text) :
    (rules.overwrite = .ifMissing ∧ tree.exists? path = true) ∧ tree.write rules path content = (.ok .skipped, tree) ∨
    ¬(rules.overwrite = .ifMissing ∧ tree.exists? path = true) ∧
      tree.write rules path content = tree.writeThrough rules.createParents path content := by
  unfold write
  cases rules.overwrite with
  | always => exact Or.inr ⟨by simp, rfl⟩
  | ifMissing =>
    by_cases hexists : tree.exists? path = true
    · exact Or.inl ⟨⟨rfl, hexists⟩, if_pos hexists⟩
    · exact Or.inr ⟨fun h => hexists h.2, if_neg hexists⟩

/-- A file is written into the directories that have been created, or one of these cannot be. -/
theorem writeThrough_cases (tree : FileTree) (createParents : Bool) (path content : Text) :
    createParents = false ∧ tree.writeThrough createParents path content = tree.writeInto path content ∨
    createParents = true ∧ (tree.writeThrough createParents path content =
        (.error (.createDirectory (directoryOf path)), (tree.createDirectories (directoryOf path)).1) ∨
      tree.writeThrough createParents path content =
        (tree.createDirectories (directoryOf path)).1.writeInto path content) := by
  cases createParents with
  | false => exact Or.inl ⟨rfl, rfl⟩
  | true =>
    refine Or.inr ⟨rfl, ?_⟩
    unfold writeThrough
    simp only [if_true]
    generalize tree.createDirectories (directoryOf path) = created
    obtain ⟨between, made⟩ := created
    cases made with
    | false => exact Or.inl rfl
    | true => exact Or.inr rfl

theorem writeInto_ne_skipped : (tree.writeInto path content).1 ≠ .ok .skipped := by
  rcases writeInto_cases tree path content with ⟨error, hwrite⟩ | ⟨place, -, -, hwrite⟩ <;> simp [hwrite]

theorem writeThrough_ne_skipped {createParents : Bool} :
    (tree.writeThrough createParents path content).1 ≠ .ok .skipped := by
  obtain ⟨-, hwrite⟩ | ⟨-, hwrite | hwrite⟩ := writeThrough_cases tree createParents path content
  · rw [hwrite]
    exact writeInto_ne_skipped
  · simp [hwrite]
  · rw [hwrite]
    exact writeInto_ne_skipped

theorem write_eq_skipped_iff : (tree.write rules path content).1 = .ok .skipped ↔
    rules.overwrite = .ifMissing ∧ tree.exists? path = true := by
  obtain ⟨hskip, hwrite⟩ | ⟨hnot, hwrite⟩ := write_cases tree rules path content
  · simp [hwrite, hskip]
  · rw [hwrite]
    exact iff_of_false writeThrough_ne_skipped hnot

theorem write_existingDirectory (tree : FileTree) (path content : Text) :
    tree.write .existingDirectory path content = tree.writeInto path content := rfl

end FileTree
end IdeExport
