import IdeExport.Proofs.FirstOccurrences
import IdeExport.Proofs.Folder.Entries
import Mathlib.Data.List.Induction
/-!
# What grows in a folder

The folders that grow in a folder have the labels that insertions begin with, in the order in which these come first,
and in each of them grows what is inserted through its label (`folders_eq_map`).  So whatever holds of a folder as soon
as it holds of the folders inside holds of all that grow from insertions (`induction_through`).
-/
namespace IdeExport
namespace Folder

variable {label : Text} {insertions : List (List Text × Text)}

/-- An insertion as seen from inside the folder of its first label. -/
def inside? (label : Text) : List Text × Text → Option (List Text × Text)
  | ([], _) => none
  | (first :: labels, file) => if first = label then some (labels, file) else none

/-- The insertions that go through a label, as seen from inside its folder. -/
def through (label : Text) (insertions : List (List Text × Text)) : List (List Text × Text) :=
  insertions.filterMap (inside? label)

/-- The labels that insertions begin with, in the order in which they come first. -/
def firstLabels (insertions : List (List Text × Text)) : List Text := (insertions.filterMap (·.1.head?)).eraseDups

def grownAt (insertions : List (List Text × Text)) (label : Text) : Folder :=
  { ofInsertions (through label insertions) with label }

theorem mem_firstLabels : label ∈ firstLabels insertions ↔ ∃ labels file, (label :: labels, file) ∈ insertions := by
  rw [firstLabels, List.mem_eraseDups, List.mem_filterMap]
  constructor
  · rintro ⟨⟨_ | ⟨first, labels⟩, file⟩, hmem, hfirst⟩
    · cases hfirst
    · cases hfirst
      exact ⟨labels, file, hmem⟩
  · rintro ⟨labels, file, hmem⟩
    exact ⟨_, hmem, rfl⟩

theorem mem_through {labels : List Text} {file : Text} :
    (labels, file) ∈ through label insertions ↔ (label :: labels, file) ∈ insertions := by
  rw [through, List.mem_filterMap]
  constructor
  · rintro ⟨⟨_ | ⟨first, rest⟩, name⟩, hmem, hinside⟩
    · cases hinside
    · simp only [inside?, Option.ite_none_right_eq_some, Option.some.injEq, Prod.mk.injEq] at hinside
      obtain ⟨rfl, rfl, rfl⟩ := hinside
      exact hmem
  · intro hmem
    exact ⟨_, hmem, by simp [inside?]⟩

theorem through_eq_nil (h : label ∉ firstLabels insertions) : through label insertions = [] :=
  List.eq_nil_iff_forall_not_mem.2 (fun insertion hmem =>
    h (mem_firstLabels.2 ⟨insertion.1, insertion.2, mem_through.1 hmem⟩))

theorem label_insert (labels : List Text) (file : Text) (f : Folder) : (insert labels file f).label = f.label := by
  cases labels <;> rfl

/-- Insertions without labels put nothing into the folders inside. -/
theorem through_filter (label : Text) (insertions : List (List Text × Text)) :
    through label (insertions.filter (·.1 ≠ [])) = through label insertions := by
  rw [through, through, List.filterMap_filter]
  congr 1
  funext insertion
  obtain ⟨_ | ⟨first, labels⟩, file⟩ := insertion <;> simp [inside?]

theorem firstLabels_filter (insertions : List (List Text × Text)) :
    firstLabels (insertions.filter (·.1 ≠ [])) = firstLabels insertions := by
  rw [firstLabels, firstLabels, List.filterMap_filter]
  congr 2
  funext insertion
  obtain ⟨_ | ⟨first, labels⟩, file⟩ := insertion <;> simp

theorem nodup_firstLabels (insertions : List (List Text × Text)) : (firstLabels insertions).Nodup :=
  (keepsFirst_eraseDups _).nodup

/-! ## Files -/

theorem files_foldl_insert : ∀ (insertions : List (List Text × Text)) (f : Folder),
    (insertions.foldl (fun f insertion => insert insertion.1 insertion.2 f) f).files =
      f.files ++ (insertions.filter (·.1 = [])).map (·.2)
  | [], f => (List.append_nil f.files).symm
  | ([], file) :: insertions, f => by
    rw [List.foldl_cons, files_foldl_insert insertions, List.filter_cons_of_pos (by simp), List.map_cons, insert,
      List.append_assoc, List.singleton_append]
  | (label :: labels, file) :: insertions, f => by
    rw [List.foldl_cons, files_foldl_insert insertions, List.filter_cons_of_neg (by simp), insert]

theorem files_ofInsertions (insertions : List (List Text × Text)) :
    (ofInsertions insertions).files = (insertions.filter (·.1 = [])).map (·.2) :=
  files_foldl_insert insertions empty

/-! ## One more insertion -/

theorem ofInsertions_concat (insertions : List (List Text × Text)) (labels : List Text) (file : Text) :
    ofInsertions (insertions ++ [(labels, file)]) = insert labels file (ofInsertions insertions) := by
  rw [ofInsertions, List.foldl_append]
  rfl

theorem through_concat (insertions : List (List Text × Text)) (first : Text) (labels : List Text) (file : Text) :
    through label (insertions ++ [(first :: labels, file)]) =
      if first = label then through label insertions ++ [(labels, file)] else through label insertions := by
  rw [through, List.filterMap_append]
  split
  · rename_i h
    simp [inside?, h, through]
  · rename_i h
    simp [inside?, h, through]

theorem through_concat_nil (insertions : List (List Text × Text)) (file : Text) :
    through label (insertions ++ [([], file)]) = through label insertions := by
  simp [through, List.filterMap_append, inside?]

theorem firstLabels_concat_nil (insertions : List (List Text × Text)) (file : Text) :
    firstLabels (insertions ++ [([], file)]) = firstLabels insertions := by
  have hnone : [(([] : List Text), file)].filterMap (·.1.head?) = [] := rfl
  rw [firstLabels, List.filterMap_append, hnone, List.append_nil, firstLabels]

theorem firstLabels_concat (insertions : List (List Text × Text)) (first : Text) (labels : List Text) (file : Text) :
    firstLabels (insertions ++ [(first :: labels, file)]) =
      if first ∈ firstLabels insertions then firstLabels insertions else firstLabels insertions ++ [first] := by
  have hconcat : (insertions ++ [(first :: labels, file)]).filterMap (·.1.head?) =
      insertions.filterMap (·.1.head?) ++ [first] := List.filterMap_append
  rw [firstLabels, hconcat, eraseDups_concat]
  split
  · exact addNew_of_mem ‹_›
  · exact addNew_of_not_mem ‹_›

theorem insert_relabel (labels : List Text) (file label : Text) (f : Folder) :
    insert labels file { f with label } = { insert labels file f with label } := by
  cases labels <;> rfl

/-- A change of the folder of one label among folders with different labels. -/
theorem changeFirst_map {change : Folder → Folder} {folder : Text → Folder} (hlabel : ∀ l, (folder l).label = l) :
    ∀ {labels : List Text}, labels.Nodup → changeFirst label change (labels.map folder) =
      if label ∈ labels then labels.map (fun l => if label = l then change (folder l) else folder l)
      else labels.map folder ++ [change { label }]
  | [], _ => rfl
  | l :: labels, h => by
    obtain ⟨hl, hlabels⟩ := List.nodup_cons.1 h
    rw [List.map_cons, changeFirst, hlabel]
    by_cases hlabel' : l = label
    · -- the folder is found, and no folder behind it has the label
      subst hlabel'
      have hrest : labels.map (fun l' => if l = l' then change (folder l') else folder l') = labels.map folder :=
        List.map_congr_left (fun l' hl' => if_neg (fun e : l = l' => hl (e ▸ hl')))
      simp [hrest]
    · rw [if_neg hlabel', changeFirst_map hlabel hlabels]
      have hne : label ≠ l := fun e => hlabel' e.symm
      by_cases hmem : label ∈ labels
      · simp [hmem, hne]
      · simp [hmem, hne]

/-- **The folders inside are those of the first labels**, and each grows from what is inserted through its label. -/
theorem folders_eq_map (insertions : List (List Text × Text)) :
    (ofInsertions insertions).folders = (firstLabels insertions).map (grownAt insertions) := by
  induction insertions using List.reverseRecOn with
  | nil => rfl
  | append_singleton insertions insertion ih =>
    obtain ⟨labels, file⟩ := insertion
    rw [ofInsertions_concat]
    cases labels with
    | nil =>
      have hgrown : grownAt (insertions ++ [([], file)]) = grownAt insertions := by
        funext label
        rw [grownAt, through_concat_nil]
        rfl
      rw [firstLabels_concat_nil, hgrown]
      exact ih
    | cons first labels =>
      have hgrown : ∀ label, grownAt (insertions ++ [(first :: labels, file)]) label =
          if first = label then insert labels file (grownAt insertions label) else grownAt insertions label := by
        intro label
        rw [grownAt, through_concat]
        split
        · rw [ofInsertions_concat, grownAt, insert_relabel]
        · rfl
      have hfolders : (insert (first :: labels) file (ofInsertions insertions)).folders =
          changeFirst first (insert labels file) ((firstLabels insertions).map (grownAt insertions)) := by
        rw [insert, ih]
      rw [hfolders, changeFirst_map (fun _ => rfl) (nodup_firstLabels insertions), firstLabels_concat]
      split
      · exact (List.map_congr_left (fun label _ => hgrown label)).symm
      · rename_i hnew
        have hold : ∀ label ∈ firstLabels insertions,
            grownAt insertions label = grownAt (insertions ++ [(first :: labels, file)]) label := by
          intro label hlabel
          rw [hgrown, if_neg (fun e : first = label => hnew (e ▸ hlabel))]
        have hfirst : insert labels file { label := first } =
            grownAt (insertions ++ [(first :: labels, file)]) first := by
          rw [hgrown, if_pos rfl, grownAt, through_eq_nil hnew]
          rfl
        rw [List.map_append, List.map_singleton, hfirst, List.map_congr_left hold]

/-! ## Growing as an induction -/

theorem exists_length_le : ∀ insertions : List (List Text × Text), ∃ n, ∀ i ∈ insertions, i.1.length ≤ n
  | [] => ⟨0, fun _ h => absurd h List.not_mem_nil⟩
  | insertion :: insertions => by
    obtain ⟨n, hn⟩ := exists_length_le insertions
    refine ⟨max insertion.1.length n, List.forall_mem_cons.2 ⟨Nat.le_max_left _ _, fun i hi => ?_⟩⟩
    exact Nat.le_trans (hn i hi) (Nat.le_max_right _ _)

/-- **What holds of insertions as soon as it holds of those through each first label holds of all.** -/
theorem induction_through {motive : List (List Text × Text) → Prop}
    (step : ∀ insertions, (∀ label ∈ firstLabels insertions, motive (through label insertions)) → motive insertions)
    (insertions : List (List Text × Text)) : motive insertions := by
  -- on a bound for the number of labels, which is smaller for what is left of them inside
  obtain ⟨n, hshort⟩ := exists_length_le insertions
  induction n generalizing insertions with
  | zero =>
    refine step insertions (fun label hlabel => ?_)
    obtain ⟨labels, file, hmem⟩ := mem_firstLabels.1 hlabel
    exact absurd (hshort _ hmem) (by simp)
  | succ n ih =>
    refine step insertions (fun label _ => ih _ ?_)
    rintro ⟨labels, file⟩ hmem
    exact Nat.le_of_succ_le_succ (hshort _ (mem_through.1 hmem))

end Folder
end IdeExport
