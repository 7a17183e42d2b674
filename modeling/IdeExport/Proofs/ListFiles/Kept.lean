import IdeExport.Proofs.ListFiles.Entries
import IdeExport.Proofs.Path.Below
import Mathlib.Data.List.Infix
/-!
# Which list files are kept

A list file is kept unless one of four rules leaves it out, and it has an entry of its own exactly if it is kept
(`contributes_iff_isKept`).  The rule on module files compares texts, not directories: it takes every path that begins
with the text of the module root, so a directory whose name goes on after that of the module root is left out with it,
and a module file with another spelling is kept.
-/
namespace IdeExport
namespace ListFiles

/-- None of the four rules leaves a list file out; `inModules` says which files are under a module root. -/
structure IsKept (inModules : Text → Text → Prop) (settings : BuildSettings) (includeRoot : Bool) (file : Text) :
    Prop where
  notModule : ∀ root, settings.moduleRoot = some root → root ≠ [] → ¬ inModules root file
  notGenerated : ¬ "CMakeFiles".toList <:+: Path.relativeTo settings.homeDirectory file
  named : Path.components (Path.relativeTo settings.homeDirectory file) ≠ []
  inDirectory : (Path.components (Path.relativeTo settings.homeDirectory file)).length = 1 → includeRoot = true

/-- The entry of a list file: its path goes through the home directory. -/
def entryOf (settings : BuildSettings) (file : Text) : FolderEntry where
  path := settings.homeDirectory ++ "/" ++ Path.relativeTo settings.homeDirectory file
  folder := "CMake Files\\" ++ Text.terminated "\\" (directoryLabels settings file)

def listEntries (settings : BuildSettings) (includeRoot : Bool) (files : List Text) : List FolderEntry :=
  (folders settings includeRoot files).entries (entryBase settings)

variable {settings : BuildSettings} {includeRoot : Bool} {file : Text}

/-! ## The rules -/

theorem isModuleFile_iff : isModuleFile settings file = true ↔
    ∃ root, settings.moduleRoot = some root ∧ root ≠ [] ∧ root <+: file := by
  unfold isModuleFile
  cases settings.moduleRoot with
  | none => simp
  | some root =>
    simp only [Bool.and_eq_true, Bool.not_eq_true', List.isEmpty_eq_false_iff, List.isPrefixOf_iff_prefix,
      Option.some.injEq, exists_eq_left']

theorem placement?_eq_some_iff {labels : List Text} {name : Text} :
    placement? settings includeRoot file = some (labels, name) ↔
      isModuleFile settings file = false ∧
      Text.occursIn generatedMark (Path.relativeTo settings.homeDirectory file) = false ∧
      Path.components (Path.relativeTo settings.homeDirectory file) = labels ++ [name] ∧
      (labels = [] → includeRoot = true) := by
  unfold placement?
  by_cases hmodule : isModuleFile settings file = true
  · simp [hmodule]
  · by_cases hgenerated : Text.occursIn generatedMark (Path.relativeTo settings.homeDirectory file) = true
    · simp [hmodule, hgenerated]
    · simp only [Bool.eq_false_iff.2 hmodule, Bool.eq_false_iff.2 hgenerated, true_and]
      generalize Path.components (Path.relativeTo settings.homeDirectory file) = components
      cases hlast : components.getLast? with
      | none =>
        rw [List.getLast?_eq_none_iff.1 hlast]
        simp
      | some last =>
        obtain ⟨front, rfl⟩ := List.getLast?_eq_some_iff.1 hlast
        have hconcat : front ++ [last] = labels ++ [name] ↔ front = labels ∧ last = name := by
          rw [← List.concat_eq_append, ← List.concat_eq_append, List.concat_inj]
        rw [List.dropLast_concat, hconcat]
        cases front with
        | nil =>
          cases includeRoot with
          | true => simp
          | false =>
            refine iff_of_false (by simp) ?_
            rintro ⟨⟨rfl, -⟩, hroot⟩
            exact Bool.false_ne_true (hroot rfl)
        | cons label front =>
          simp only [List.isEmpty_cons, Bool.false_and, Bool.false_eq_true, if_false, Option.some.injEq,
            Prod.mk.injEq]
          refine (and_iff_left_of_imp ?_).symm
          rintro ⟨rfl, -⟩ hnil
          cases hnil

/-- **A list file has a place exactly if it is kept.** -/
theorem isSome_placement?_iff :
    (placement? settings includeRoot file).isSome = true ↔ IsKept (· <+: ·) settings includeRoot file := by
  have hnotModule : isModuleFile settings file = false ↔
      ∀ root, settings.moduleRoot = some root → root ≠ [] → ¬ root <+: file := by
    rw [← Bool.not_eq_true, isModuleFile_iff]
    simp only [not_exists, not_and]
  have hnotGenerated : Text.occursIn generatedMark (Path.relativeTo settings.homeDirectory file) = false ↔
      ¬ "CMakeFiles".toList <:+: Path.relativeTo settings.homeDirectory file := by
    rw [← Bool.not_eq_true, Text.occursIn_iff_isInfix]
    rfl
  rw [Option.isSome_iff_exists]
  constructor
  · rintro ⟨⟨labels, name⟩, hplace⟩
    obtain ⟨hmodule, hgenerated, hcomponents, hroot⟩ := placement?_eq_some_iff.1 hplace
    refine ⟨hnotModule.1 hmodule, hnotGenerated.1 hgenerated, ?_, fun hone => hroot ?_⟩
    · rw [hcomponents]
      exact List.append_ne_nil_of_right_ne_nil _ (List.cons_ne_nil _ _)
    · rw [hcomponents, List.length_append] at hone
      exact List.length_eq_zero_iff.1 (Nat.succ_injective hone)
  · rintro ⟨hmodule, hgenerated, hnamed, hdirectory⟩
    obtain ⟨labels, name, hcomponents⟩ := List.eq_nil_or_concat' _ |>.resolve_left hnamed
    refine ⟨(labels, name), placement?_eq_some_iff.2
      ⟨hnotModule.2 hmodule, hnotGenerated.2 hgenerated, hcomponents, fun hnil => hdirectory ?_⟩⟩
    rw [hcomponents, hnil]
    rfl

/-- Module files and files under the module root are the same for plain spellings, but for files beside it. -/
theorem isKept_iff_of_isPlain (hroot : ∀ root, settings.moduleRoot = some root → Path.IsPlain root)
    (hfile : Path.IsPlain file) :
    IsKept (· <+: ·) settings includeRoot file ↔
      IsKept Path.IsBelow settings includeRoot file ∧
        ∀ root, settings.moduleRoot = some root → ¬ Path.IsBeside root file := by
  constructor
  · intro hkept
    have happart : ∀ root, settings.moduleRoot = some root → root ≠ [] →
        ¬ (Path.IsBelow root file ∨ Path.IsBeside root file) := by
      intro root hsome hne
      rw [← Path.prefix_iff_of_isPlain (hroot root hsome) hfile]
      exact hkept.notModule root hsome hne
    refine ⟨⟨fun root hsome hne hbelow => happart root hsome hne (Or.inl hbelow), hkept.notGenerated, hkept.named,
      hkept.inDirectory⟩, fun root hsome hbeside => ?_⟩
    by_cases hne : root = []
    · -- the empty path has no last name that could go on
      obtain ⟨front, name, -, -, hnames, -⟩ := hbeside
      rw [hne] at hnames
      exact List.append_ne_nil_of_right_ne_nil front (List.cons_ne_nil name []) hnames.symm
    · exact happart root hsome hne (Or.inr hbeside)
  · rintro ⟨hkept, hbeside⟩
    refine ⟨fun root hsome hne hprefix => ?_, hkept.notGenerated, hkept.named, hkept.inDirectory⟩
    rcases Path.isBelow_or_isBeside_of_prefix hprefix with h | h
    · exact hkept.notModule root hsome hne h
    · exact hbeside root hsome h

/-! ## The entries -/

theorem placed_of_placement {placement : List Text × Text} (h : placement? settings includeRoot file = some placement) :
    Folder.placed [] (entryBase settings) placement = entryOf settings file := by
  have hrelative : Path.relativeTo settings.homeDirectory file = Text.terminated "/" placement.1 ++ placement.2 := by
    have hcomponents := components_of_placement h
    rw [Path.components_relativeTo] at hcomponents
    rw [Path.relativeTo, ← hcomponents, Text.join_concat]
  rw [Folder.placed, entryOf, hrelative, ← labels_of_placement h, entryBase, List.append_assoc]
  rfl

/-- **There is one entry for each list file that is kept**, and no other. -/
theorem listEntries_perm (settings : BuildSettings) (includeRoot : Bool) (files : List Text) :
    (listEntries settings includeRoot files).Perm ((keptFiles settings includeRoot files).map (entryOf settings)) := by
  have hentries : List.Forall₂ (· = ·) ((keptFiles settings includeRoot files).map (entryOf settings))
      ((placements settings includeRoot files).map (Folder.placed [] (entryBase settings))) := by
    rw [List.forall₂_map_left_iff, List.forall₂_map_right_iff]
    exact (forall₂_placements files).imp (fun file placement h => (placed_of_placement h).symm)
  rw [List.forall₂_eq_eq_eq] at hentries
  rw [hentries]
  exact Folder.entries_ofInsertions (entryBase settings) (placements settings includeRoot files)

/-- **A list file contributes an entry exactly if it is kept**, wherever it stands among others.  If the module root
and the file are spelled plainly, the files that are left out as module files are those below the module root and those
in a directory beside it whose name goes on after the last name of the module root. -/
theorem contributes_iff_isKept (settings : BuildSettings) (includeRoot : Bool) (before after : List Text)
    (file : Text) :
    (IsKept (· <+: ·) settings includeRoot file →
      (listEntries settings includeRoot (before ++ file :: after)).Perm
        (entryOf settings file :: listEntries settings includeRoot (before ++ after))) ∧
    (¬ IsKept (· <+: ·) settings includeRoot file →
      listEntries settings includeRoot (before ++ file :: after) = listEntries settings includeRoot (before ++ after)) ∧
    ((∀ root, settings.moduleRoot = some root → Path.IsPlain root) → Path.IsPlain file →
      (IsKept (· <+: ·) settings includeRoot file ↔
        IsKept Path.IsBelow settings includeRoot file ∧
          ∀ root, settings.moduleRoot = some root → ¬ Path.IsBeside root file)) := by
  refine ⟨fun hkept => ?_, fun hkept => ?_, isKept_iff_of_isPlain⟩
  · have hsome : (placement? settings includeRoot file).isSome = true := isSome_placement?_iff.2 hkept
    have hfiles : keptFiles settings includeRoot (before ++ file :: after) =
        keptFiles settings includeRoot before ++ file :: keptFiles settings includeRoot after := by
      simp only [keptFiles, List.filter_append, List.filter_cons, hsome, if_true]
    have hothers : keptFiles settings includeRoot (before ++ after) =
        keptFiles settings includeRoot before ++ keptFiles settings includeRoot after := List.filter_append ..
    have hperm : ((keptFiles settings includeRoot (before ++ file :: after)).map (entryOf settings)).Perm
        (entryOf settings file :: (keptFiles settings includeRoot (before ++ after)).map (entryOf settings)) := by
      rw [hfiles, hothers, List.map_append, List.map_append, List.map_cons]
      exact List.perm_middle
    have hwith := listEntries_perm settings includeRoot (before ++ file :: after)
    have hwithout := listEntries_perm settings includeRoot (before ++ after)
    exact hwith.trans (hperm.trans (hwithout.symm.cons _))
  · have hnone : placement? settings includeRoot file = none := by
      rwa [← isSome_placement?_iff, Bool.not_eq_true, Option.isSome_eq_false_iff, Option.isNone_iff_eq_none] at hkept
    rw [listEntries, listEntries, folders, folders, List.filterMap_append, List.filterMap_append,
      List.filterMap_cons_none hnone]

/-- Modules are below `/s/cmake`, in a source tree. -/
def modulesInTree : BuildSettings := { homeDirectory := "/s", homeOutputDirectory := "/b", moduleRoot := some "/s/cmake" }

/-- The rule on module files is none on directories: it leaves out a file that is beside the module root. -/
theorem not_forall_contributes_iff_isKept :
    ¬ ∀ (settings : BuildSettings) (includeRoot : Bool) (before after : List Text) (file : Text),
      (IsKept Path.IsBelow settings includeRoot file →
        (listEntries settings includeRoot (before ++ file :: after)).Perm
          (entryOf settings file :: listEntries settings includeRoot (before ++ after))) ∧
      (¬ IsKept Path.IsBelow settings includeRoot file →
        listEntries settings includeRoot (before ++ file :: after) =
          listEntries settings includeRoot (before ++ after)) := by
  intro h
  have hkept : IsKept Path.IsBelow modulesInTree false "/s/cmake-extras/CMakeLists.txt" := by
    refine ⟨fun root hroot _ => ?_, ?_, by decide, by decide⟩
    · cases hroot
      unfold Path.IsBelow
      decide
    · rw [← Text.occursIn_iff_isInfix]
      decide
  have hperm := (h modulesInTree false [] [] "/s/cmake-extras/CMakeLists.txt").1 hkept
  have hlength := hperm.length_eq
  revert hlength
  decide

theorem contributes_iff_isKept_modulesInTree :
    IsKept (· <+: ·) modulesInTree false "/s/lib/CMakeLists.txt" ∧
    (listEntries modulesInTree false ["/s/app/x.cmake", "/s/lib/CMakeLists.txt"]).Perm
      (entryOf modulesInTree "/s/lib/CMakeLists.txt" :: listEntries modulesInTree false ["/s/app/x.cmake"]) ∧
    ¬ IsKept (· <+: ·) modulesInTree false "/s/cmake/FindZLIB.cmake" ∧
    listEntries modulesInTree false ["/s/app/x.cmake", "/s/cmake/FindZLIB.cmake"] =
      listEntries modulesInTree false ["/s/app/x.cmake"] ∧
    (∀ root, modulesInTree.moduleRoot = some root → Path.IsPlain root) ∧ Path.IsPlain "/s/lib/CMakeLists.txt" ∧
    ¬ Path.IsBeside "/s/cmake" "/s/lib/CMakeLists.txt" := by
  have hlib : IsKept (· <+: ·) modulesInTree false "/s/lib/CMakeLists.txt" := isSome_placement?_iff.1 (by decide)
  have hmodule : ¬ IsKept (· <+: ·) modulesInTree false "/s/cmake/FindZLIB.cmake" :=
    fun hkept => hkept.notModule "/s/cmake" rfl (by decide) (by decide)
  have hroot : ∀ root, modulesInTree.moduleRoot = some root → Path.IsPlain root := by
    intro root hsome
    cases hsome
    unfold Path.IsPlain
    decide
  have hplain : Path.IsPlain "/s/lib/CMakeLists.txt" := by
    unfold Path.IsPlain
    decide
  refine ⟨hlib, ?_, hmodule, ?_, hroot, hplain, ?_⟩
  · exact (contributes_iff_isKept modulesInTree false ["/s/app/x.cmake"] [] "/s/lib/CMakeLists.txt").1 hlib
  · exact (contributes_iff_isKept modulesInTree false ["/s/app/x.cmake"] [] "/s/cmake/FindZLIB.cmake").2.1 hmodule
  · exact (((contributes_iff_isKept modulesInTree false [] [] "/s/lib/CMakeLists.txt").2.2 hroot hplain).1 hlib).2
      "/s/cmake" rfl

end ListFiles
end IdeExport
