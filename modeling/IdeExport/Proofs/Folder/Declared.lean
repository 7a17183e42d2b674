import IdeExport.Proofs.Folder.Arrangement
import Mathlib.Data.List.Nodup
/-!
# What folders are declared

A folder is declared once for all insertions that go through it, and after the folder that it is inside
(`mem_labelPaths`, `pairwise_labelPaths`).  As long as no label holds a backslash, the path of a folder tells its labels,
so this is so of the paths too, and the entries are in declared folders (`declaration_matches_entries`).
-/
namespace IdeExport
namespace Folder

variable {insertions : List (List Text × Text)}

/-! ## Labels -/

mutual

/-- The labels that lead to the folders inside one, in the order of their paths. -/
def labelPaths : Folder → List (List Text)
  | ⟨_, _, folders⟩ => labelPathsOf folders

def labelPathsOf : List Folder → List (List Text)
  | [] => []
  | ⟨label, files, folders⟩ :: rest =>
    [label] :: ((labelPaths ⟨label, files, folders⟩).map (label :: ·) ++ labelPathsOf rest)

end

theorem labelPaths_relabel (f : Folder) (label : Text) : labelPaths { f with label } = labelPaths f := by
  cases f
  rw [labelPaths, labelPaths]

theorem labelPathsOf_cons (f : Folder) (fs : List Folder) :
    labelPathsOf (f :: fs) = [f.label] :: ((labelPaths f).map (f.label :: ·) ++ labelPathsOf fs) := by
  cases f
  rw [labelPathsOf]

theorem labelPathsOf_map {folder : Text → Folder} (hlabel : ∀ l, (folder l).label = l) : ∀ labels : List Text,
    labelPathsOf (labels.map folder) = labels.flatMap (fun l => [l] :: (labelPaths (folder l)).map (l :: ·))
  | [] => rfl
  | l :: labels => by
    rw [List.map_cons, labelPathsOf_cons, hlabel, labelPathsOf_map hlabel labels, List.flatMap_cons, List.cons_append]

theorem labelPaths_ofInsertions (insertions : List (List Text × Text)) :
    labelPaths (ofInsertions insertions) = (firstLabels insertions).flatMap
      (fun l => [l] :: (labelPaths (ofInsertions (through l insertions))).map (l :: ·)) := by
  have hfolders : ∀ f : Folder, labelPaths f = labelPathsOf f.folders := by
    rintro ⟨_, _, _⟩
    rw [labelPaths]
  rw [hfolders, folders_eq_map, labelPathsOf_map (fun _ => rfl)]
  simp only [grownAt, labelPaths_relabel]

/-- **There are folders exactly on the ways of insertions.** -/
theorem mem_labelPaths {labels : List Text} : labels ∈ labelPaths (ofInsertions insertions) ↔
    labels ≠ [] ∧ ∃ insertion ∈ insertions, labels <+: insertion.1 := by
  induction labels generalizing insertions with
  | nil =>
    rw [labelPaths_ofInsertions]
    simp
  | cons label labels ih =>
    have hmem : label :: labels ∈ labelPaths (ofInsertions insertions) ↔ label ∈ firstLabels insertions ∧
        (labels = [] ∨ labels ∈ labelPaths (ofInsertions (through label insertions))) := by
      rw [labelPaths_ofInsertions, List.mem_flatMap]
      constructor
      · rintro ⟨l, hl, hbelow⟩
        rcases List.mem_cons.1 hbelow with heq | hbelow
        · obtain ⟨rfl, rfl⟩ := List.cons.inj heq
          exact ⟨hl, Or.inl rfl⟩
        · obtain ⟨rest, hrest, heq⟩ := List.mem_map.1 hbelow
          obtain ⟨rfl, rfl⟩ := List.cons.inj heq
          exact ⟨hl, Or.inr hrest⟩
      · rintro ⟨hlabel, rfl | hlabels⟩
        · exact ⟨label, hlabel, List.mem_cons_self⟩
        · exact ⟨label, hlabel, List.mem_cons_of_mem _ (List.mem_map_of_mem hlabels)⟩
    rw [hmem, ih, mem_firstLabels]
    constructor
    · rintro ⟨⟨rest, file, hrest⟩, rfl | ⟨-, ⟨inner, name⟩, hinner, hway⟩⟩
      · exact ⟨List.cons_ne_nil _ _, _, hrest, List.cons_prefix_cons.2 ⟨rfl, List.nil_prefix⟩⟩
      · exact ⟨List.cons_ne_nil _ _, _, mem_through.1 hinner, List.cons_prefix_cons.2 ⟨rfl, hway⟩⟩
    · rintro ⟨-, ⟨_ | ⟨first, rest⟩, file⟩, hinsertion, hway⟩
      · exact absurd (List.prefix_nil.1 hway) (List.cons_ne_nil _ _)
      · obtain ⟨rfl, hrest⟩ := List.cons_prefix_cons.1 hway
        refine ⟨⟨rest, file, hinsertion⟩, ?_⟩
        by_cases hlabels : labels = []
        · exact Or.inl hlabels
        · exact Or.inr ⟨hlabels, (rest, file), mem_through.2 hinsertion, hrest⟩

/-- **No folder comes a second time or before one that it is inside.** -/
theorem pairwise_labelPaths (insertions : List (List Text × Text)) :
    (labelPaths (ofInsertions insertions)).Pairwise (fun p q => ¬ q <+: p) := by
  induction insertions using induction_through with
  | step insertions ih =>
    rw [labelPaths_ofInsertions, List.pairwise_flatMap]
    refine ⟨fun l hl => List.pairwise_cons.2 ⟨fun q hq => ?_, ?_⟩, ?_⟩
    · obtain ⟨q', hq', rfl⟩ := List.mem_map.1 hq
      have hne := (mem_labelPaths.1 hq').1
      rw [List.cons_prefix_cons, List.prefix_nil]
      exact fun h => hne h.2
    · rw [List.pairwise_map]
      refine (ih l hl).imp (fun hpq h => hpq ?_)
      exact (List.cons_prefix_cons.1 h).2
    · have hhead : ∀ {l : Text} {r : List Text},
          r ∈ [l] :: (labelPaths (ofInsertions (through l insertions))).map (l :: ·) → ∃ rest, r = l :: rest := by
        intro l r hr
        rcases List.mem_cons.1 hr with rfl | hr
        · exact ⟨[], rfl⟩
        · obtain ⟨rest, -, rfl⟩ := List.mem_map.1 hr
          exact ⟨rest, rfl⟩
      refine List.Pairwise.imp (fun {a b} hab p hp q hq hway => hab ?_) (nodup_firstLabels insertions)
      obtain ⟨p', rfl⟩ := hhead hp
      obtain ⟨q', rfl⟩ := hhead hq
      exact (List.cons_prefix_cons.1 hway).1.symm

/-! ## Paths -/

theorem ne_nil_of_mem_labelPathsOf {labels : List Text} : ∀ {fs : List Folder}, labels ∈ labelPathsOf fs → labels ≠ []
  | f :: fs, h => by
    rw [labelPathsOf_cons, List.mem_cons, List.mem_append] at h
    rcases h with rfl | h | h
    · exact List.cons_ne_nil _ _
    · obtain ⟨rest, -, rfl⟩ := List.mem_map.1 h
      exact List.cons_ne_nil _ _
    · exact ne_nil_of_mem_labelPathsOf h

mutual

theorem pathsBelow_eq_map : ∀ (before : Text) (f : Folder),
    pathsBelow before f = (labelPaths f).map (fun labels => before ++ Text.join "\\" labels)
  | before, ⟨_, _, folders⟩ => by
    rw [pathsBelow, labelPaths]
    exact pathsOf_eq_map before folders

theorem pathsOf_eq_map : ∀ (before : Text) (fs : List Folder),
    pathsOf before fs = (labelPathsOf fs).map (fun labels => before ++ Text.join "\\" labels)
  | _, [] => rfl
  | before, ⟨label, files, folders⟩ :: rest => by
    have hinside : ∀ labels ∈ labelPaths ⟨label, files, folders⟩,
        before ++ Text.join "\\" (label :: labels) = before ++ label ++ "\\" ++ Text.join "\\" labels := by
      intro labels hlabels
      rw [labelPaths] at hlabels
      rw [Text.join_cons _ _ (ne_nil_of_mem_labelPathsOf hlabels)]
      simp only [List.append_assoc]
    have hjoin : Text.join "\\" [label] = label := List.intercalate_singleton
    rw [pathsOf, labelPathsOf, List.map_cons, List.map_append, List.map_map, hjoin,
      pathsBelow_eq_map (before ++ label ++ "\\") ⟨label, files, folders⟩, pathsOf_eq_map before rest]
    exact congrArg (fun paths => _ :: (paths ++ _)) (List.map_congr_left hinside).symm

end

theorem paths_eq_map (f : Folder) : f.paths = (labelPaths f).map (Text.join "\\") := pathsBelow_eq_map [] f

theorem backslash_not_mem {labels : List Text} (h : ∀ insertion ∈ insertions, ∀ label ∈ insertion.1, '\\' ∉ label)
    (hlabels : labels ∈ labelPaths (ofInsertions insertions)) : ∀ label ∈ labels, '\\' ∉ label := by
  obtain ⟨-, insertion, hinsertion, hway⟩ := mem_labelPaths.1 hlabels
  exact fun label hlabel => h insertion hinsertion label (hway.subset hlabel)

theorem split_join_labelPath {labels : List Text}
    (h : ∀ insertion ∈ insertions, ∀ label ∈ insertion.1, '\\' ∉ label)
    (hlabels : labels ∈ labelPaths (ofInsertions insertions)) : Text.split '\\' (Text.join "\\" labels) = labels :=
  Text.split_join (mem_labelPaths.1 hlabels).1 (backslash_not_mem h hlabels)

theorem nodup_paths (h : ∀ insertion ∈ insertions, ∀ label ∈ insertion.1, '\\' ∉ label) :
    (ofInsertions insertions).paths.Nodup := by
  rw [paths_eq_map]
  refine List.Nodup.map_on (fun p hp q hq heq => ?_) ?_
  · rw [← split_join_labelPath h hp, ← split_join_labelPath h hq, heq]
  · refine (pairwise_labelPaths insertions).imp ?_
    rintro p _ hway rfl
    exact hway List.prefix_rfl

/-- A folder comes after every folder that its path goes through. -/
theorem above_mem_before (h : ∀ insertion ∈ insertions, ∀ label ∈ insertion.1, '\\' ∉ label)
    {before after : List Text} {above rest : Text}
    (hsplit : (ofInsertions insertions).paths = before ++ (above ++ "\\" ++ rest) :: after) : above ∈ before := by
  rw [paths_eq_map] at hsplit
  obtain ⟨front, back, hpaths, rfl, hback⟩ := List.map_eq_append_iff.1 hsplit
  obtain ⟨labels, behind, rfl, hpath, -⟩ := List.map_eq_cons_iff.1 hback
  have hlabels : labels ∈ labelPaths (ofInsertions insertions) := by
    rw [hpaths]
    exact List.mem_append_right _ List.mem_cons_self
  -- the labels of the folder above are those before the backslash
  have hparts : labels = Text.split '\\' above ++ Text.split '\\' rest := by
    rw [← split_join_labelPath h hlabels, hpath, List.append_assoc]
    exact Text.split_append_sep '\\' rest above
  have habove : Text.split '\\' above ∈ labelPaths (ofInsertions insertions) := by
    obtain ⟨-, insertion, hinsertion, hway⟩ := mem_labelPaths.1 hlabels
    refine mem_labelPaths.2 ⟨Text.split_ne_nil _ _, insertion, hinsertion, List.IsPrefix.trans ?_ hway⟩
    rw [hparts]
    exact List.prefix_append _ _
  have hpairwise := pairwise_labelPaths insertions
  rw [hpaths] at habove hpairwise
  refine List.mem_map.2 ⟨_, ?_, Text.join_split '\\' above⟩
  rcases List.mem_append.1 habove with hfront | hback
  · exact hfront
  · rcases List.mem_cons.1 hback with heq | hbehind
    · rw [hparts] at heq
      exact absurd (List.append_right_eq_self.1 heq.symm) (Text.split_ne_nil _ _)
    · have hnot := List.rel_of_pairwise_cons (List.pairwise_append.1 hpairwise).2.1 hbehind
      rw [hparts] at hnot
      exact absurd (List.prefix_append _ _) hnot

/-! ## The declaration and the entries -/

def declaredFolders (f : Folder) : List Text := (topName ++ "\\") :: f.paths.map (displayPath · ++ "\\")

theorem declaration_eq (f : Folder) : f.declaration = Text.terminated ";" f.declaredFolders := by
  have hpieces : Text.terminated "\\;" (f.paths.map displayPath) =
      Text.terminated ";" (f.paths.map (displayPath · ++ "\\")) := by
    simp only [Text.terminated, List.flatMap_map, List.append_assoc]
    rfl
  rw [declaration, declaredFolders, Text.terminated_cons, hpieces]
  simp only [List.append_assoc]
  rfl

theorem mem_entries {directory : Text} {entry : FolderEntry} :
    entry ∈ (ofInsertions insertions).entries directory ↔
      ∃ insertion ∈ insertions, placed [] directory insertion = entry := by
  rw [(entries_ofInsertions directory insertions).mem_iff, List.mem_map]

theorem folder_placed (directory : Text) (insertion : List Text × Text) :
    (placed [] directory insertion).folder = topName ++ "\\" ++ Text.terminated "\\" insertion.1 := rfl

theorem mem_declaredFolders {folder : Text} : folder ∈ (ofInsertions insertions).declaredFolders ↔
    folder = topName ++ "\\" ∨ ∃ insertion ∈ insertions, ∃ labels, labels ≠ [] ∧ labels <+: insertion.1 ∧
      folder = topName ++ "\\" ++ Text.terminated "\\" labels := by
  rw [declaredFolders, List.mem_cons, paths_eq_map, List.map_map, List.mem_map]
  refine or_congr_right ⟨?_, ?_⟩
  · rintro ⟨labels, hlabels, rfl⟩
    obtain ⟨hne, insertion, hinsertion, hway⟩ := mem_labelPaths.1 hlabels
    refine ⟨insertion, hinsertion, labels, hne, hway, ?_⟩
    rw [Text.terminated_eq_join _ hne, ← List.append_assoc]
    rfl
  · rintro ⟨insertion, hinsertion, labels, hne, hway, rfl⟩
    refine ⟨labels, mem_labelPaths.2 ⟨hne, insertion, hinsertion, hway⟩, ?_⟩
    rw [Text.terminated_eq_join _ hne, ← List.append_assoc]
    rfl

theorem folder_mem_declaredFolders {directory : Text} {entry : FolderEntry}
    (h : entry ∈ (ofInsertions insertions).entries directory) :
    entry.folder ∈ (ofInsertions insertions).declaredFolders := by
  obtain ⟨insertion, hinsertion, rfl⟩ := mem_entries.1 h
  rw [mem_declaredFolders, folder_placed]
  by_cases hlabels : insertion.1 = []
  · rw [hlabels]
    exact Or.inl (List.append_nil _)
  · exact Or.inr ⟨insertion, hinsertion, insertion.1, hlabels, List.prefix_rfl, rfl⟩

theorem exists_entry_within (hne : insertions ≠ []) (directory : Text) {folder : Text}
    (h : folder ∈ (ofInsertions insertions).declaredFolders) :
    ∃ entry ∈ (ofInsertions insertions).entries directory, folder <+: entry.folder := by
  rcases mem_declaredFolders.1 h with rfl | ⟨insertion, hinsertion, labels, -, ⟨rest, hrest⟩, rfl⟩
  · obtain ⟨insertion, others, rfl⟩ := List.exists_cons_of_ne_nil hne
    exact ⟨_, mem_entries.2 ⟨insertion, List.mem_cons_self, rfl⟩, List.prefix_append _ _⟩
  · refine ⟨_, mem_entries.2 ⟨insertion, hinsertion, rfl⟩, ?_⟩
    rw [folder_placed, ← hrest, Text.terminated_append, ← List.append_assoc]
    exact List.prefix_append _ _

/-- **The declaration and the entries describe the same folders.**  Every folder on the way of an insertion has one path
and no other has one, and it stands after those that it is inside.  The declaration is the top folder and these, every
entry is in a declared folder, and as soon as there is an insertion, every declared folder has an entry in it or below. -/
theorem declaration_matches_entries (h : ∀ insertion ∈ insertions, ∀ label ∈ insertion.1, '\\' ∉ label)
    (directory : Text) :
    (ofInsertions insertions).paths.Nodup ∧
    (∀ path, path ∈ (ofInsertions insertions).paths ↔
      ∃ insertion ∈ insertions, ∃ labels, labels ≠ [] ∧ labels <+: insertion.1 ∧ Text.join "\\" labels = path) ∧
    (∀ (before after : List Text) (above rest : Text),
      (ofInsertions insertions).paths = before ++ (above ++ "\\" ++ rest) :: after → above ∈ before) ∧
    (ofInsertions insertions).declaration = Text.terminated ";" (ofInsertions insertions).declaredFolders ∧
    (∀ entry ∈ (ofInsertions insertions).entries directory, entry.folder ∈ (ofInsertions insertions).declaredFolders) ∧
    (insertions ≠ [] → ∀ folder ∈ (ofInsertions insertions).declaredFolders,
      ∃ entry ∈ (ofInsertions insertions).entries directory, folder <+: entry.folder) := by
  refine ⟨nodup_paths h, fun path => ?_, fun before after above rest => above_mem_before h, declaration_eq _,
    fun entry => folder_mem_declaredFolders, fun hne folder => exists_entry_within hne directory⟩
  rw [paths_eq_map, List.mem_map]
  constructor
  · rintro ⟨labels, hlabels, hpath⟩
    obtain ⟨hne, insertion, hinsertion, hway⟩ := mem_labelPaths.1 hlabels
    exact ⟨insertion, hinsertion, labels, hne, hway, hpath⟩
  · rintro ⟨insertion, hinsertion, labels, hne, hway, hpath⟩
    exact ⟨labels, mem_labelPaths.2 ⟨hne, insertion, hinsertion, hway⟩, hpath⟩

theorem not_forall_exists_entry_within :
    ¬ ∀ (insertions : List (List Text × Text)) (directory : Text),
      (∀ insertion ∈ insertions, ∀ label ∈ insertion.1, '\\' ∉ label) →
      ∀ folder ∈ (ofInsertions insertions).declaredFolders,
        ∃ entry ∈ (ofInsertions insertions).entries directory, folder <+: entry.folder := by
  intro h
  obtain ⟨entry, hentry, -⟩ := h [] "/src/" (fun _ hmem => absurd hmem List.not_mem_nil) (topName ++ "\\")
    List.mem_cons_self
  exact List.not_mem_nil hentry

/-- Folders that share a way, a folder with no name and one that only holds another. -/
theorem declaration_matches_entries_sharedWays :
    let insertions : List (List Text × Text) :=
      [(["a", "b"], "f1"), ([], "f2"), (["", "b"], "f3"), (["a", "c"], "f4"), (["a", "b"], "f1")]
    (∀ insertion ∈ insertions, ∀ label ∈ insertion.1, '\\' ∉ label) ∧ insertions ≠ [] ∧
    (ofInsertions insertions).paths = ["a", "a\\b", "a\\c", "", "\\b"] ∧
    (ofInsertions insertions).paths.Nodup ∧
    (∀ entry ∈ (ofInsertions insertions).entries "/src/", entry.folder ∈ (ofInsertions insertions).declaredFolders) ∧
    ∀ folder ∈ (ofInsertions insertions).declaredFolders,
      ∃ entry ∈ (ofInsertions insertions).entries "/src/", folder <+: entry.folder := by
  intro insertions
  have h : ∀ insertion ∈ insertions, ∀ label ∈ insertion.1, '\\' ∉ label := by decide
  obtain ⟨hnodup, -, -, -, hentries, hfolders⟩ := declaration_matches_entries h "/src/"
  exact ⟨h, List.cons_ne_nil _ _, by decide, hnodup, hentries, hfolders (List.cons_ne_nil _ _)⟩

end Folder
end IdeExport
