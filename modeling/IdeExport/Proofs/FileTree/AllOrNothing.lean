import IdeExport.Proofs.FileTree.Creating
import IdeExport.Proofs.FileTree.Parents
/-!
# Writing one file

A write puts the whole content at its path or leaves every file as it was (`write_allOrNothing`).  Whether it fails
before a directory is created, between two of them or when the file is moved to its place, all that it can leave behind
are directories on the way to the path, and only if it was asked to create them.
-/
namespace IdeExport
namespace FileTree

variable {tree before after : FileTree} {location working : Location} {rules : WriteRules} {path content : Text}

/-! ## Directories on the way -/

/-- Where a directory on the way to a path is: the place that its components lead to when some are left. -/
def IsAncestor (working : Location) (path : Text) (location : Location) : Prop :=
  ∃ front rest, rest ≠ [] ∧ Path.components path = front ++ rest ∧ location = front.foldl step (startOf working path)

theorem exists_front_of_mem_directoriesTo (working : Location) {other : Text}
    (h : other ∈ Path.directoriesTo path) :
    ∃ front, front <+: Path.components path ∧ placeOf working other = front.foldl step (startOf working path) := by
  have hreads := Path.reads_startAndPieces path
  rw [Path.components_eq_filter, startOf]
  unfold Path.directoriesTo at h
  generalize Path.startAndPieces path = own at h hreads ⊢
  obtain ⟨through, hthrough, rfl⟩ := List.mem_map.1 h
  obtain ⟨hne, hprefix⟩ := mem_prefixesFrom hthrough
  have hhere := hreads.mono hprefix
  refine ⟨through.filter Path.isComponent, hprefix.filter _, ?_⟩
  rw [placeOf, startOf_ofPieces hhere hne, Path.components_eq_filter, (Path.same_ofPieces hhere fun _ => hne).2]

theorem isAncestor_of_mem_directoriesTo {other : Text} (h : other ∈ Path.directoriesTo (directoryOf path)) :
    IsAncestor working path (placeOf working other) := by
  obtain ⟨-, hdirectory⟩ | ⟨name, hcomponents, hstart⟩ := components_directoryOf working path
  · rw [hdirectory] at h
    cases h
  · obtain ⟨front, ⟨more, hfront⟩, hplace⟩ := exists_front_of_mem_directoriesTo working h
    refine ⟨front, more ++ [name], by simp, ?_, hstart ▸ hplace⟩
    rw [hcomponents, ← hfront, List.append_assoc]

theorem place_of_ensureAll : ∀ {paths : List Text} {tree : FileTree}, tree.entryAt? location = none →
    (tree.ensureAll paths).1.entryAt? location = some .directory → ∃ path ∈ paths, location = placeOf tree.working path
  | [], _, hbefore, hafter => by
    rw [ensureAll, hbefore] at hafter
    cases hafter
  | path :: paths, tree, hbefore, hafter => by
    unfold ensureAll at hafter
    split at hafter
    · rw [hbefore] at hafter
      cases hafter
    · rename_i between hensure
      obtain ⟨place, hlocate, ⟨-, rfl⟩ | ⟨-, rfl⟩⟩ := ensureDirectory_cases hensure
      · obtain ⟨other, hother, hplace⟩ := place_of_ensureAll hbefore hafter
        exact ⟨other, List.mem_cons_of_mem _ hother, hplace⟩
      · by_cases hhere : location = place
        · exact ⟨path, List.mem_cons_self, hhere.trans (eq_placeOf_of_locate hlocate)⟩
        · obtain ⟨other, hother, hplace⟩ := place_of_ensureAll ((entryAt?_put_of_ne hhere).trans hbefore) hafter
          exact ⟨other, List.mem_cons_of_mem _ hother, hplace⟩

theorem isAncestor_of_createDirectories (hbefore : tree.entryAt? location = none)
    (hafter : (tree.createDirectories (directoryOf path)).1.entryAt? location = some .directory) :
    IsAncestor tree.working path location := by
  unfold createDirectories at hafter
  split at hafter
  · obtain ⟨other, hother, rfl⟩ := place_of_ensureAll hbefore hafter
    exact isAncestor_of_mem_directoriesTo hother
  · rw [hbefore] at hafter
    cases hafter

/-! ## Directories after a write -/

theorem directory_of_writeInto (h : (tree.writeInto path content).2.entryAt? location = some .directory) :
    tree.entryAt? location = some .directory := by
  obtain ⟨error, hwrite⟩ | ⟨place, -, hfree, hwrite⟩ := writeInto_cases tree path content
  · rwa [hwrite] at h
  · rw [hwrite] at h
    by_cases hplace : location = place
    · rw [hplace, entryAt?_put_self (ne_nil_of_entryAt?_ne hfree)] at h
      cases h
    · exact (entryAt?_put_of_ne hplace).symm.trans h

/-- A directory that is there after a write and was not before is on the way to the path, and the rules ask for it. -/
theorem isAncestor_of_write (hbefore : tree.entryAt? location = none)
    (hafter : (tree.write rules path content).2.entryAt? location = some .directory) :
    rules.createParents = true ∧ IsAncestor tree.working path location := by
  have hnothing : tree.entryAt? location ≠ some .directory := by simp [hbefore]
  obtain ⟨-, hwrite⟩ | ⟨-, hwrite⟩ := write_cases tree rules path content
  · rw [hwrite] at hafter
    exact absurd hafter hnothing
  · rw [hwrite] at hafter
    obtain ⟨-, hwrite⟩ | ⟨hcreate, hwrite | hwrite⟩ := writeThrough_cases tree rules.createParents path content
    · rw [hwrite] at hafter
      exact absurd (directory_of_writeInto hafter) hnothing
    · rw [hwrite] at hafter
      exact ⟨hcreate, isAncestor_of_createDirectories hbefore hafter⟩
    · rw [hwrite] at hafter
      exact ⟨hcreate, isAncestor_of_createDirectories hbefore (directory_of_writeInto hafter)⟩

/-! ## What is spared -/

/-- At a location nothing has changed, or where nothing was there is a directory on the way to the path. -/
def SparesAt (before after : FileTree) (rules : WriteRules) (path : Text) (location : Location) : Prop :=
  after.entryAt? location = before.entryAt? location ∨
    rules.createParents = true ∧ before.entryAt? location = none ∧ after.entryAt? location = some .directory ∧
      IsAncestor before.working path location

theorem SparesAt.fileAt? (h : SparesAt before after rules path location) :
    after.fileAt? location = before.fileAt? location := by
  unfold FileTree.fileAt?
  rcases h with h | ⟨-, hbefore, hafter, -⟩
  · rw [h]
  · rw [hbefore, hafter]

/-- Where no file has been written, an entry is as it was or a new directory. -/
theorem Wrote.entryAt?_cases {files : List (Text × Text)} (h : Wrote before after files)
    (hne : ∀ file ∈ files, after.locate file.1 ≠ some location) :
    after.entryAt? location = before.entryAt? location ∨
      before.entryAt? location = none ∧ after.entryAt? location = some .directory := by
  have hfile := h.fileAt?_of_ne hne
  cases hbefore : before.entryAt? location with
  | none =>
    cases hafter : after.entryAt? location with
    | none => exact Or.inl rfl
    | some entry =>
      cases entry with
      | directory => exact Or.inr ⟨rfl, rfl⟩
      | file content => simp [FileTree.fileAt?, hbefore, hafter] at hfile
  | some entry =>
    cases entry with
    | directory => exact Or.inl (h.directories location hbefore)
    | file content =>
      rw [fileAt?_eq_some_iff.2 hbefore] at hfile
      exact Or.inl (fileAt?_eq_some_iff.1 hfile)

/-- A write spares every location but the one that it has written to. -/
theorem sparesAt_write (tree : FileTree) (rules : WriteRules) (path content : Text) (location : Location)
    (hne : (tree.write rules path content).1 = .ok .written →
      (tree.write rules path content).2.locate path ≠ some location) :
    SparesAt tree (tree.write rules path content).2 rules path location := by
  have hwrote := wrote_write tree rules path content
  have hfiles : ∀ file ∈ writtenFiles path content (tree.write rules path content).1,
      (tree.write rules path content).2.locate file.1 ≠ some location := by
    intro file hfile
    unfold writtenFiles at hfile
    split at hfile
    · rename_i hresult
      rw [List.mem_singleton.1 hfile]
      exact hne hresult
    · cases hfile
  rcases hwrote.entryAt?_cases hfiles with hsame | ⟨hbefore, hafter⟩
  · exact Or.inl hsame
  · obtain ⟨hcreate, hancestor⟩ := isAncestor_of_write hbefore hafter
    exact Or.inr ⟨hcreate, hbefore, hafter, hancestor⟩

/-! ## All or nothing -/

theorem eq_of_write_error {error : WriteError} (hcreate : rules.createParents = false)
    (h : tree.write rules path content = (.error error, after)) : after = tree := by
  obtain ⟨-, hwrite⟩ | ⟨-, hwrite⟩ := write_cases tree rules path content
  · rw [hwrite] at h
    cases h
  · rw [hwrite, hcreate, show tree.writeThrough false path content = tree.writeInto path content from rfl] at h
    obtain ⟨other, hinto⟩ | ⟨place, -, -, hinto⟩ := writeInto_cases tree path content
    · rw [hinto] at h
      exact (Prod.mk.inj h).2.symm
    · rw [hinto] at h
      cases h

theorem write_of_not_isDirectory (hcreate : rules.createParents = false) (hparent : Path.parent path ≠ none)
    (hmissing : tree.isDirectory (directoryOf path) = false) :
    tree.write rules path content = (.error (.openFile path), tree) := by
  obtain ⟨⟨-, hexists⟩, -⟩ | ⟨-, hwrite⟩ := write_cases tree rules path content
  · rw [isDirectory_directoryOf hexists hparent] at hmissing
    cases hmissing
  · rw [hwrite, hcreate, show tree.writeThrough false path content = tree.writeInto path content from rfl, writeInto,
      hmissing]
    rfl

/-- **A file is written as a whole or not at all.**  A write that fails leaves every file as it was and adds none; it
changes nothing unless it may create directories, and then nothing but missing ones on the way to the path.  One that
succeeds leaves the content at the path and spares all the rest in the same way.  A write is skipped exactly if it is for
a missing file only and the path exists, and then the tree stays as it is.  One that may not create directories fails
wherever the parent of the path is no directory. -/
theorem write_allOrNothing {result : Except WriteError WriteResult}
    (h : tree.write rules path content = (result, after)) :
    (∀ error, result = .error error →
      (∀ location, after.fileAt? location = tree.fileAt? location ∧ SparesAt tree after rules path location) ∧
      (rules.createParents = false → after = tree)) ∧
    (result = .ok .written → ∃ place, after.locate path = some place ∧ after.entryAt? place = some (.file content) ∧
      ∀ location, location ≠ place →
        after.fileAt? location = tree.fileAt? location ∧ SparesAt tree after rules path location) ∧
    (result = .ok .skipped ↔ rules.overwrite = .ifMissing ∧ tree.exists? path = true) ∧
    (result = .ok .skipped → after = tree) ∧
    (rules.createParents = false → Path.parent path ≠ none → tree.isDirectory (directoryOf path) = false →
      ∃ error, result = .error error) := by
  have hresult : (tree.write rules path content).1 = result := by rw [h]
  have hafter : (tree.write rules path content).2 = after := by rw [h]
  have hspares := sparesAt_write tree rules path content
  have hskipped : result = .ok .skipped ↔ rules.overwrite = .ifMissing ∧ tree.exists? path = true :=
    hresult ▸ write_eq_skipped_iff
  rw [hresult, hafter] at hspares
  refine ⟨fun error herror => ⟨fun location => ?_, fun hcreate => ?_⟩, fun hwritten => ?_, hskipped, fun hskip => ?_,
    fun hcreate hparent hmissing => ?_⟩
  · have hhere := hspares location (by simp [herror])
    exact ⟨hhere.fileAt?, hhere⟩
  · exact eq_of_write_error hcreate (herror ▸ h)
  · have hwrote := wrote_write tree rules path content
    rw [hresult, hafter, hwritten] at hwrote
    obtain ⟨place, hplace⟩ := hwrote.located (path, content) List.mem_cons_self
    have hcontent : after.fileAt? place = some content := by
      rw [hwrote.fileAt?]
      simp [writtenFiles, lastAt?, hplace]
    refine ⟨place, hplace, fileAt?_eq_some_iff.1 hcontent, fun location hne => ?_⟩
    have hhere := hspares location fun _ => by simpa [hplace] using hne.symm
    exact ⟨hhere.fileAt?, hhere⟩
  · obtain ⟨-, hwrite⟩ | ⟨hnot, -⟩ := write_cases tree rules path content
    · rw [hwrite] at h
      exact (Prod.mk.inj h).2.symm
    · exact absurd (hskipped.1 hskip) hnot
  · rw [write_of_not_isDirectory hcreate hparent hmissing] at h
    exact ⟨_, (Prod.mk.inj h).1.symm⟩

/-- A tree in which a file is where a path wants a directory. -/
def blockedTree : FileTree := { entries := [(["notes"], .file "mine")] }

theorem write_blockedTree : blockedTree.write {} "new/../notes/today" "text" =
    (.error (.createDirectory "new/../notes"), blockedTree.put ["new"] .directory) := rfl

/-- `blockedTree` with a file beside the one that is in the way. -/
def unblockedTree : FileTree := (blockedTree.put ["new"] .directory).put ["new", "today"] (.file "text")

theorem write_unblockedTree : blockedTree.write {} "new/today" "text" = (.ok .written, unblockedTree) := rfl

/-- One directory has been created before a write fails at the next, and the file in the way is as it was.  A write beside
it puts its content there and spares the rest. -/
theorem write_allOrNothing_blockedTree :
    (blockedTree.write {} "new/../notes/today" "text" =
      (.error (.createDirectory "new/../notes"), blockedTree.put ["new"] .directory) ∧
    (blockedTree.put ["new"] .directory).fileAt? ["notes"] = some "mine".toList ∧
    SparesAt blockedTree (blockedTree.put ["new"] .directory) {} "new/../notes/today" ["new"]) ∧
    blockedTree.write {} "new/today" "text" = (.ok .written, unblockedTree) ∧
    unblockedTree.entryAt? ["new", "today"] = some (.file "text") ∧
    unblockedTree.fileAt? ["notes"] = some "mine".toList ∧
    ∀ location, location ≠ ["new".toList, "today".toList] →
      SparesAt blockedTree unblockedTree {} "new/today" location := by
  constructor
  · obtain ⟨hspares, -⟩ := (write_allOrNothing write_blockedTree).1 _ rfl
    refine ⟨write_blockedTree, ?_, (hspares ["new"]).2⟩
    rw [(hspares ["notes"]).1]
    rfl
  · obtain ⟨place, hplace, hcontent, hspares⟩ := (write_allOrNothing write_unblockedTree).2.1 rfl
    have hlocate : unblockedTree.locate "new/today" = some ["new".toList, "today".toList] := rfl
    obtain rfl := Option.some.inj (hplace.symm.trans hlocate)
    refine ⟨write_unblockedTree, hcontent, ?_, fun location hne => (hspares location hne).2⟩
    rw [(hspares ["notes"] (by decide)).1]
    rfl

end FileTree
end IdeExport
