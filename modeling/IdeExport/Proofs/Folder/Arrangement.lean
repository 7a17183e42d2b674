import IdeExport.Proofs.Folder.Growth
import Mathlib.Data.List.Count
import Mathlib.Data.List.Nodup
/-!
# The order of entries

What is put into the same folder stays together and in order, whatever is put elsewhere in between (`contents_split`).
A folder comes before those inside it, and folders in one place come in the order of their first insertions
(`pairwise_listedBefore`).  Behind this is that no two folders in one place have the same label, which every insertion
keeps (`HasDistinctLabels.insert`).
-/
namespace IdeExport
namespace Folder

variable {label : Text} {labels : List Text} {insertions : List (List Text × Text)}

/-! ## Labels of siblings -/

/-- In a folder and in every folder inside, no two folders have the same label. -/
inductive HasDistinctLabels : Folder → Prop
  | intro {f : Folder} : (f.folders.map (·.label)).Nodup → (∀ g ∈ f.folders, HasDistinctLabels g) → HasDistinctLabels f

theorem labels_changeFirst {change : Folder → Folder} (hlabel : ∀ f, (change f).label = f.label) :
    ∀ fs : List Folder, (changeFirst label change fs).map (·.label) =
      if label ∈ fs.map (·.label) then fs.map (·.label) else fs.map (·.label) ++ [label]
  | [] => by simp [changeFirst, hlabel]
  | f :: fs => by
    unfold changeFirst
    by_cases hf : f.label = label
    · simp [hf, hlabel]
    · have hne : label ≠ f.label := fun e => hf e.symm
      rw [if_neg hf, List.map_cons, labels_changeFirst hlabel fs, List.map_cons]
      by_cases hmem : label ∈ fs.map (·.label)
      · rw [if_pos hmem, if_pos (List.mem_cons_of_mem _ hmem)]
      · rw [if_neg hmem, if_neg (List.not_mem_cons_of_ne_of_not_mem hne hmem), List.cons_append]

theorem mem_changeFirst {change : Folder → Folder} {g : Folder} : ∀ {fs : List Folder},
    g ∈ changeFirst label change fs → g ∈ fs ∨ g = change { label } ∨ ∃ f ∈ fs, g = change f
  | [], h => Or.inr (Or.inl (List.mem_singleton.1 h))
  | f :: fs, h => by
    unfold changeFirst at h
    split at h
    · rcases List.mem_cons.1 h with rfl | h
      · exact Or.inr (Or.inr ⟨f, List.mem_cons_self, rfl⟩)
      · exact Or.inl (List.mem_cons_of_mem _ h)
    · rcases List.mem_cons.1 h with rfl | h
      · exact Or.inl List.mem_cons_self
      · rcases mem_changeFirst h with h | h | ⟨f', hf', rfl⟩
        · exact Or.inl (List.mem_cons_of_mem _ h)
        · exact Or.inr (Or.inl h)
        · exact Or.inr (Or.inr ⟨f', List.mem_cons_of_mem _ hf', rfl⟩)

theorem hasDistinctLabels_of_folders_eq_nil {f : Folder} (h : f.folders = []) : HasDistinctLabels f := by
  refine .intro ?_ (fun g hg => ?_)
  · rw [h]
    exact List.nodup_nil
  · rw [h] at hg
    exact absurd hg List.not_mem_nil

/-- **An insertion keeps the labels of siblings distinct.** -/
theorem HasDistinctLabels.insert {labels : List Text} (file : Text) {f : Folder} (h : HasDistinctLabels f) :
    HasDistinctLabels (Folder.insert labels file f) := by
  induction labels generalizing f with
  | nil =>
    obtain ⟨hlabels, hinside⟩ := h
    exact .intro hlabels hinside
  | cons label labels ih =>
    obtain ⟨hlabels, hinside⟩ := h
    refine .intro ?_ (fun g hg => ?_)
    · show ((changeFirst label (Folder.insert labels file) f.folders).map (·.label)).Nodup
      rw [labels_changeFirst (label_insert labels file)]
      split
      · exact hlabels
      · rename_i hnew
        rw [← List.concat_eq_append]
        exact hlabels.concat hnew
    · rcases mem_changeFirst hg with hg | rfl | ⟨f', hf', rfl⟩
      · exact hinside g hg
      · exact ih (hasDistinctLabels_of_folders_eq_nil rfl)
      · exact ih (hinside f' hf')

theorem hasDistinctLabels_ofInsertions (insertions : List (List Text × Text)) :
    HasDistinctLabels (ofInsertions insertions) := by
  induction insertions using List.reverseRecOn with
  | nil => exact hasDistinctLabels_of_folders_eq_nil rfl
  | append_singleton insertions insertion ih =>
    rw [ofInsertions_concat]
    exact ih.insert insertion.2

/-! ## Contents -/

/-- **The contents come label by label**, after the files of the folder itself. -/
theorem contents_ofInsertions (insertions : List (List Text × Text)) :
    contents (ofInsertions insertions) = insertions.filter (·.1 = []) ++
      (firstLabels insertions).flatMap (fun l => (contents (ofInsertions (through l insertions))).map (under l)) := by
  have hfiles : (ofInsertions insertions).files.map (([], ·)) = insertions.filter (·.1 = []) := by
    rw [files_ofInsertions, List.map_map]
    conv_rhs => rw [← List.map_id (insertions.filter (·.1 = []))]
    apply List.map_congr_left
    rintro ⟨labels, file⟩ hmem
    have hlabels : labels = [] := by simpa using (List.mem_filter.1 hmem).2
    rw [hlabels]
    rfl
  have hcontents : ∀ f : Folder, contents f = f.files.map (([], ·)) ++ contentsOf f.folders := by
    rintro ⟨_, _, _⟩
    rw [contents]
  rw [hcontents, hfiles, folders_eq_map, contentsOf_map (fun _ => rfl)]
  simp only [grownAt, contents_relabel]

/-! ## What stays together -/

theorem filter_cons_labels (label : Text) (labels : List Text) : ∀ insertions : List (List Text × Text),
    insertions.filter (·.1 = label :: labels) =
      ((through label insertions).filter (·.1 = labels)).map (under label)
  | [] => rfl
  | ([], file) :: insertions => by
    rw [List.filter_cons_of_neg (by simp), filter_cons_labels label labels insertions]
    rfl
  | (first :: rest, file) :: insertions => by
    have ih := filter_cons_labels label labels insertions
    by_cases hfirst : first = label
    · subst hfirst
      have hthrough : through first ((first :: rest, file) :: insertions) =
          (rest, file) :: through first insertions := by
        simp [through, inside?]
      rw [hthrough]
      by_cases hrest : rest = labels
      · simp [hrest, ih, under]
      · simp [hrest, ih]
    · have hthrough : through label ((first :: rest, file) :: insertions) = through label insertions := by
        simp [through, inside?, hfirst]
      simp [hthrough, hfirst, ih]

theorem ne_of_mem_own {insertion : List Text × Text} (h : insertion ∈ insertions.filter (·.1 = [])) :
    insertion.1 ≠ label :: labels := by
  have hnil : insertion.1 = [] := by simpa using (List.mem_filter.1 h).2
  rw [hnil]
  exact (List.cons_ne_nil _ _).symm

/-- Only what is listed under a label can have labels that begin with it. -/
theorem ne_of_mem_others {inside : Text → List (List Text × Text)} {others : List Text} (hlabel : label ∉ others)
    {insertion : List Text × Text} (h : insertion ∈ others.flatMap (fun l => (inside l).map (under l))) :
    insertion.1 ≠ label :: labels := by
  obtain ⟨l, hl, hunder⟩ := List.mem_flatMap.1 h
  obtain ⟨inner, -, rfl⟩ := List.mem_map.1 hunder
  intro heq
  obtain ⟨rfl, -⟩ := List.cons.inj heq
  exact hlabel hl

/-- **What was put into one folder stays together and in order.** -/
theorem contents_split : ∀ (labels : List Text) (insertions : List (List Text × Text)), ∃ before after,
    contents (ofInsertions insertions) = before ++ insertions.filter (·.1 = labels) ++ after ∧
      ∀ insertion ∈ before ++ after, insertion.1 ≠ labels
  | [], insertions => by
    refine ⟨[], _, contents_ofInsertions insertions, fun insertion hmem => ?_⟩
    obtain ⟨label, -, hunder⟩ := List.mem_flatMap.1 hmem
    obtain ⟨inner, -, rfl⟩ := List.mem_map.1 hunder
    exact List.cons_ne_nil _ _
  | label :: labels, insertions => by
    rw [contents_ofInsertions, filter_cons_labels]
    by_cases hlabel : label ∈ firstLabels insertions
    · obtain ⟨earlier, later, hsplit⟩ := List.append_of_mem hlabel
      have hnodup := nodup_firstLabels insertions
      rw [hsplit, List.nodup_middle, List.nodup_cons, List.mem_append, not_or] at hnodup
      obtain ⟨⟨hearlier, hlater⟩, -⟩ := hnodup
      obtain ⟨before, after, hinside, hapart⟩ := contents_split labels (through label insertions)
      rw [hsplit, List.flatMap_append, List.flatMap_cons, hinside]
      refine ⟨insertions.filter (·.1 = []) ++ (earlier.flatMap _ ++ before.map (under label)),
        after.map (under label) ++ later.flatMap _, by simp only [List.map_append, List.append_assoc]; rfl, ?_⟩
      have hinner : ∀ inner ∈ before ++ after, (under label inner).1 ≠ label :: labels :=
        fun inner hmem heq => hapart inner hmem (List.cons.inj heq).2
      intro insertion hmem
      simp only [List.mem_append, List.mem_map] at hmem
      rcases hmem with (h | h | ⟨inner, h, rfl⟩) | ⟨inner, h, rfl⟩ | h
      · exact ne_of_mem_own h
      · exact ne_of_mem_others hearlier h
      · exact hinner inner (List.mem_append_left _ h)
      · exact hinner inner (List.mem_append_right _ h)
      · exact ne_of_mem_others hlater h
    · rw [through_eq_nil hlabel, List.filter_nil, List.map_nil]
      refine ⟨_, [], by rw [List.append_nil, List.append_nil], fun insertion hmem => ?_⟩
      rw [List.append_nil, List.mem_append] at hmem
      exact hmem.elim ne_of_mem_own (ne_of_mem_others hlabel)

theorem filter_contents (labels : List Text) (insertions : List (List Text × Text)) :
    (contents (ofInsertions insertions)).filter (·.1 = labels) = insertions.filter (·.1 = labels) := by
  obtain ⟨before, after, hsplit, hapart⟩ := contents_split labels insertions
  have hbefore : before.filter (·.1 = labels) = [] :=
    List.filter_eq_nil_iff.2 (fun i hi => by simpa using hapart i (List.mem_append_left _ hi))
  have hafter : after.filter (·.1 = labels) = [] :=
    List.filter_eq_nil_iff.2 (fun i hi => by simpa using hapart i (List.mem_append_right _ hi))
  rw [hsplit, List.filter_append, List.filter_append, hbefore, hafter, List.filter_filter, List.nil_append,
    List.append_nil]
  simp only [Bool.and_self]

theorem perm_contents (insertions : List (List Text × Text)) :
    (contents (ofInsertions insertions)).Perm insertions := by
  rw [List.perm_iff_count]
  intro insertion
  have hcount : ∀ is : List (List Text × Text), is.count insertion = (is.filter (·.1 = insertion.1)).count insertion :=
    fun is => (List.count_filter (p := fun i : List Text × Text => decide (i.1 = insertion.1)) (decide_eq_true rfl)).symm
  rw [hcount, filter_contents, ← hcount]

/-- **Folders have one entry for each insertion**, the repeated ones included. -/
theorem entries_ofInsertions (directory : Text) (insertions : List (List Text × Text)) :
    ((ofInsertions insertions).entries directory).Perm (insertions.map (placed [] directory)) := by
  rw [entries_eq_map]
  exact (perm_contents insertions).map _

/-! ## What comes first -/

/-- The number of insertions before the first one that goes through a folder. -/
def firstThrough (insertions : List (List Text × Text)) (folder : List Text) : Nat :=
  insertions.findIdx (fun insertion => folder.isPrefixOf insertion.1)

/-- The order of folders in a listing: a folder before those inside it, and where two ways part, the one that was gone
first. -/
def ListedBefore (insertions : List (List Text × Text)) (p q : List Text) : Prop :=
  p <+: q ∨ ∃ above a b, above ++ [a] <+: p ∧ above ++ [b] <+: q ∧
    firstThrough insertions (above ++ [a]) < firstThrough insertions (above ++ [b])

/-- What comes first among the images of some elements comes first among the elements. -/
theorem findIdx_lt_of_filterMap {α β : Type} {g : α → Option β} {p q : α → Bool} {p' q' : β → Bool}
    (hp : ∀ x, p x = (g x).any p') (hq : ∀ x, q x = (g x).any q') :
    ∀ {xs : List α}, (xs.filterMap g).findIdx p' < (xs.filterMap g).findIdx q' → xs.findIdx p < xs.findIdx q
  | [], h => h
  | x :: xs, h => by
    rw [List.findIdx_cons, List.findIdx_cons, hp, hq]
    cases hx : g x with
    | none =>
      rw [List.filterMap_cons_none hx] at h
      have ih := findIdx_lt_of_filterMap hp hq h
      simpa using ih
    | some y =>
      rw [List.filterMap_cons_some hx, List.findIdx_cons, List.findIdx_cons] at h
      rw [Option.any_some, Option.any_some]
      cases hq' : q' y with
      | true => simp [hq'] at h
      | false =>
        cases hp' : p' y with
        | true => simp
        | false =>
          simp only [hp', hq', cond_false] at h ⊢
          exact Nat.succ_lt_succ (findIdx_lt_of_filterMap hp hq (Nat.lt_of_succ_lt_succ h))

theorem firstThrough_cons_lt {f g : List Text}
    (h : firstThrough (through label insertions) f < firstThrough (through label insertions) g) :
    firstThrough insertions (label :: f) < firstThrough insertions (label :: g) := by
  have hinside : ∀ (folder : List Text) (insertion : List Text × Text),
      (label :: folder).isPrefixOf insertion.1 = (inside? label insertion).any (fun i => folder.isPrefixOf i.1) := by
    rintro folder ⟨_ | ⟨first, rest⟩, file⟩
    · rfl
    · by_cases hfirst : first = label
      · simp [inside?, hfirst]
      · have hne : label ≠ first := fun e => hfirst e.symm
        simp [inside?, hfirst, hne, List.isPrefixOf_cons_cons]
  exact findIdx_lt_of_filterMap (hinside f) (hinside g) h

theorem pairwise_firstLabels (insertions : List (List Text × Text)) :
    (firstLabels insertions).Pairwise (fun a b => firstThrough insertions [a] < firstThrough insertions [b]) := by
  have hhead : ∀ (l : Text) (insertion : List Text × Text),
      [l].isPrefixOf insertion.1 = insertion.1.head?.any (· == l) := by
    rintro l ⟨_ | ⟨first, rest⟩, file⟩
    · rfl
    · simp [List.isPrefixOf_cons_cons, Bool.beq_comm]
  exact (keepsFirst_eraseDups _).pairwise.imp (findIdx_lt_of_filterMap (hhead _) (hhead _))

theorem ListedBefore.under {p q : List Text} (h : ListedBefore (through label insertions) p q) :
    ListedBefore insertions (label :: p) (label :: q) := by
  rcases h with h | ⟨above, a, b, hp, hq, hlt⟩
  · exact Or.inl (List.cons_prefix_cons.2 ⟨rfl, h⟩)
  · exact Or.inr ⟨label :: above, a, b, List.cons_prefix_cons.2 ⟨rfl, hp⟩, List.cons_prefix_cons.2 ⟨rfl, hq⟩,
      firstThrough_cons_lt hlt⟩

/-- **Whatever is listed later is in a folder that comes later.** -/
theorem pairwise_listedBefore (insertions : List (List Text × Text)) :
    (contents (ofInsertions insertions)).Pairwise (fun p q => ListedBefore insertions p.1 q.1) := by
  induction insertions using induction_through with
  | step insertions ih =>
    have hown : ∀ p ∈ insertions.filter (·.1 = []), ∀ q : List Text × Text, ListedBefore insertions p.1 q.1 := by
      intro p hp q
      have hnil : p.1 = [] := by simpa using (List.mem_filter.1 hp).2
      rw [hnil]
      exact Or.inl List.nil_prefix
    rw [contents_ofInsertions, List.pairwise_append, List.pairwise_flatMap]
    refine ⟨List.pairwise_of_forall_mem_list (fun p hp q _ => hown p hp q), ⟨fun l hl => ?_, ?_⟩,
      fun p hp q _ => hown p hp q⟩
    · rw [List.pairwise_map]
      exact (ih l hl).imp ListedBefore.under
    · refine (pairwise_firstLabels insertions).imp (fun {a b} hlt p hp q hq => ?_)
      obtain ⟨p', -, rfl⟩ := List.mem_map.1 hp
      obtain ⟨q', -, rfl⟩ := List.mem_map.1 hq
      exact Or.inr ⟨[], a, b, ⟨p'.1, rfl⟩, ⟨q'.1, rfl⟩, hlt⟩

/-! ## The entries -/

theorem label_eq_of_prefixes {above p : List Text} {a b : Text} (ha : above ++ [a] <+: p) (hb : above ++ [b] <+: p) :
    a = b := by
  have hway : above ++ [a] <+: above ++ [b] := List.prefix_of_prefix_length_le ha hb (by simp)
  have heq := hway.eq_of_length (by simp)
  exact List.singleton_inj.1 (List.append_cancel_left heq)

theorem ListedBefore.eq_of_inside {p q : List Text} (h : ListedBefore insertions p q) (hway : q <+: p) : q = p := by
  rcases h with h | ⟨above, a, b, ha, hb, hlt⟩
  · exact hway.eq_of_length_le h.length_le
  · have hab := label_eq_of_prefixes ha (hb.trans hway)
    rw [hab] at hlt
    exact absurd hlt (Nat.lt_irrefl _)

/-- Where the ways to two folders part, the one that is listed first was gone first. -/
theorem ListedBefore.lt_of_part {p q above : List Text} {a b : Text} (h : ListedBefore insertions p q) (hne : a ≠ b)
    (ha : above ++ [a] <+: p) (hb : above ++ [b] <+: q) :
    firstThrough insertions (above ++ [a]) < firstThrough insertions (above ++ [b]) := by
  rcases h with h | ⟨above', a', b', ha', hb', hlt⟩
  · exact absurd (label_eq_of_prefixes (ha.trans h) hb) hne
  · have hne' : a' ≠ b' := by
      rintro rfl
      exact Nat.lt_irrefl _ hlt
    -- two ways part only once
    have hshorter : ∀ {f g : List Text} {x y z : Text}, f ++ [x] <+: p → f ++ [y] <+: q → g ++ [z] <+: p →
        (∀ w, g ++ [w] <+: q → f.length < g.length → x = y) := by
      intro f g x y z hx hy hz w hw hlen
      have hxg : f ++ [x] <+: g :=
        List.prefix_of_prefix_length_le hx ((List.prefix_append g [z]).trans hz) (by simp; omega)
      exact label_eq_of_prefixes (hxg.trans ((List.prefix_append g [w]).trans hw)) hy
    rcases Nat.lt_trichotomy above.length above'.length with hlen | hlen | hlen
    · exact absurd (hshorter ha hb ha' b' hb' hlen) hne
    · have habove : above ++ [a] = above' ++ [a'] :=
        (List.prefix_of_prefix_length_le ha ha' (by simp [hlen])).eq_of_length (by simp [hlen])
      obtain ⟨rfl, haa⟩ := List.append_inj' habove rfl
      rw [List.singleton_inj.1 haa, label_eq_of_prefixes hb hb']
      exact hlt
    · exact absurd (hshorter ha' hb' ha b hb hlen) hne'

/-- **Folders list every insertion once and in order.**  The entries are the insertions in another order, in which those
of one folder stand together as they came, a folder stands before those inside it, and where the ways to two folders
part, the one that was gone first.  No insertion makes two folders with one label in the same place. -/
theorem entries_arranged (insertions : List (List Text × Text)) (directory : Text) :
    ∃ order : List (List Text × Text),
      (ofInsertions insertions).entries directory = order.map (placed [] directory) ∧
      order.Perm insertions ∧
      (∀ labels, ∃ before after, order = before ++ insertions.filter (·.1 = labels) ++ after ∧
        ∀ insertion ∈ before ++ after, insertion.1 ≠ labels) ∧
      order.Pairwise (fun p q => q.1 <+: p.1 → q.1 = p.1) ∧
      order.Pairwise (fun p q => ∀ above a b, a ≠ b → above ++ [a] <+: p.1 → above ++ [b] <+: q.1 →
        firstThrough insertions (above ++ [a]) < firstThrough insertions (above ++ [b])) ∧
      ∀ n, HasDistinctLabels (ofInsertions (insertions.take n)) := by
  have horder := pairwise_listedBefore insertions
  refine ⟨contents (ofInsertions insertions), entries_eq_map _ directory, perm_contents insertions,
    fun labels => contents_split labels insertions, ?_, ?_, fun n => hasDistinctLabels_ofInsertions _⟩
  · exact horder.imp (fun h hway => h.eq_of_inside hway)
  · refine horder.imp ?_
    intro p q h above a b hne ha hb
    exact h.lt_of_part hne ha hb

end Folder
end IdeExport
