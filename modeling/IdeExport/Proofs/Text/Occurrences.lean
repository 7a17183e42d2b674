import Mathlib.Data.List.Basic
import IdeExport.Text.Basic
/-!
# Occurrences

A search goes through a text from left to right.  Where the pattern begins it is passed over as a whole, and anywhere
else one character is (`occurrences_pattern_append` and `occurrences_cons_of_not_prefix_cons`); everything else here
follows from these two.  What is found is there, and nothing that is there comes before all that is found
(`occursAt_of_mem_occurrences` and `exists_mem_occurrences_le`).  A pattern without line feeds is found line by line
(`occurrences_append_sep`).
-/
namespace IdeExport
namespace Text

variable {pattern : Text}

/-! ## Steps -/

theorem occurrencesFrom_eq_map : ∀ (t : Text) (skip position : Nat),
    occurrencesFrom pattern skip position t = (occurrencesFrom pattern skip 0 t).map (position + ·)
  | [], _, _ => rfl
  | c :: cs, skip, position => by
    have hrest : ∀ skip, occurrencesFrom pattern skip (position + c.utf8Size) cs =
        (occurrencesFrom pattern skip (0 + c.utf8Size) cs).map (position + ·) := by
      intro skip
      rw [occurrencesFrom_eq_map cs skip (position + c.utf8Size), occurrencesFrom_eq_map cs skip (0 + c.utf8Size),
        List.map_map]
      exact List.map_congr_left (fun o _ => by simp only [Function.comp_apply]; omega)
    cases skip with
    | succ skip => exact hrest skip
    | zero =>
      rw [occurrencesFrom, occurrencesFrom]
      split
      · rw [hrest, List.map_cons, Nat.add_zero]
      · exact hrest 0

theorem occurrencesFrom_length_append (t : Text) : ∀ (passed : Text) (position : Nat),
    occurrencesFrom pattern passed.length position (passed ++ t) =
      (occurrences pattern t).map (position + byteSize passed + ·)
  | [], position => occurrencesFrom_eq_map t 0 position
  | c :: passed, position => by
    rw [byteSize_cons, ← Nat.add_assoc]
    exact occurrencesFrom_length_append t passed (position + c.utf8Size)

theorem occurrences_nil : occurrences pattern [] = [] := rfl

theorem occurrences_pattern_append (h : pattern ≠ []) (t : Text) :
    occurrences pattern (pattern ++ t) = 0 :: (occurrences pattern t).map (byteSize pattern + ·) := by
  obtain ⟨c, cs, rfl⟩ := List.exists_cons_of_ne_nil h
  have hstarts : (c :: cs).isPrefixOf (c :: (cs ++ t)) = true :=
    List.isPrefixOf_iff_prefix.2 (List.prefix_append (c :: cs) t)
  have hrest : occurrencesFrom (c :: cs) cs.length c.utf8Size (cs ++ t) =
      (occurrences (c :: cs) t).map (c.utf8Size + byteSize cs + ·) := occurrencesFrom_length_append t cs c.utf8Size
  rw [List.cons_append, occurrences, occurrencesFrom, if_pos hstarts, byteSize_cons, ← hrest, Nat.zero_add]
  rfl

theorem occurrences_cons_of_not_prefix_cons {c : Char} {cs : Text} (h : ¬ pattern <+: c :: cs) :
    occurrences pattern (c :: cs) = (occurrences pattern cs).map (c.utf8Size + ·) := by
  rw [occurrences, occurrencesFrom, if_neg (fun hstarts => h (List.isPrefixOf_iff_prefix.1 hstarts)), Nat.zero_add]
  exact occurrencesFrom_eq_map cs 0 c.utf8Size

/-- A fact about all texts, from the two ways in which a search goes on. -/
theorem search_induction {motive : Text → Prop} (hpattern : pattern ≠ []) (nil : motive [])
    (hit : ∀ t, motive t → motive (pattern ++ t))
    (miss : ∀ c cs, ¬ pattern <+: c :: cs → motive cs → motive (c :: cs)) : ∀ t, motive t
  | [] => nil
  | c :: cs => by
    by_cases hstarts : pattern <+: c :: cs
    · obtain ⟨t, ht⟩ := hstarts
      have hshorter : t.length < cs.length + 1 := by
        have hlength := congrArg List.length ht
        rw [List.length_append, List.length_cons] at hlength
        have := List.length_pos_iff.2 hpattern
        omega
      exact ht ▸ hit t (search_induction hpattern nil hit miss t)
    · exact miss c cs hstarts (search_induction hpattern nil hit miss cs)
  termination_by t => t.length

/-! ## Where a pattern stands -/

/-- A pattern stands at a byte offset of a text, whether or not a search passes over it. -/
def OccursAt (pattern t : Text) (offset : Nat) : Prop :=
  ∃ before after, t = before ++ (pattern ++ after) ∧ byteSize before = offset

theorem exists_occursAt_iff {t : Text} : (∃ offset, OccursAt pattern t offset) ↔ pattern <:+: t := by
  constructor
  · rintro ⟨-, before, after, rfl, -⟩
    exact ⟨before, after, List.append_assoc _ _ _⟩
  · rintro ⟨before, after, rfl⟩
    exact ⟨_, before, after, List.append_assoc _ _ _, rfl⟩

theorem OccursAt.append_left {t : Text} {offset : Nat} (h : OccursAt pattern t offset) (s : Text) :
    OccursAt pattern (s ++ t) (byteSize s + offset) := by
  obtain ⟨before, after, rfl, rfl⟩ := h
  exact ⟨s ++ before, after, (List.append_assoc _ _ _).symm, byteSize_append before s⟩

theorem OccursAt.add_byteSize_le {t : Text} {offset : Nat} (h : OccursAt pattern t offset) :
    offset + byteSize pattern ≤ byteSize t := by
  obtain ⟨before, after, rfl, rfl⟩ := h
  simp only [byteSize_append]
  omega

/-! ## What is found -/

theorem occursAt_of_mem_occurrences (h : pattern ≠ []) {t : Text} :
    ∀ offset ∈ occurrences pattern t, OccursAt pattern t offset := by
  induction t using search_induction h with
  | nil => simp [occurrences_nil]
  | hit t ih =>
    rw [occurrences_pattern_append h, List.forall_mem_cons, List.forall_mem_map]
    exact ⟨⟨[], t, rfl, rfl⟩, fun offset hoffset => (ih offset hoffset).append_left pattern⟩
  | miss c cs hmiss ih =>
    rw [occurrences_cons_of_not_prefix_cons hmiss, List.forall_mem_map]
    exact fun offset hoffset => (ih offset hoffset).append_left [c]

/-- A search passes over a place only behind one that it has found. -/
theorem exists_mem_occurrences_le (h : pattern ≠ []) {t : Text} {offset : Nat} (hoffset : OccursAt pattern t offset) :
    ∃ first ∈ occurrences pattern t, first ≤ offset := by
  induction t using search_induction h generalizing offset with
  | nil =>
    obtain ⟨before, after, hnil, -⟩ := hoffset
    simp [h] at hnil
  | hit t _ => exact ⟨0, by rw [occurrences_pattern_append h]; exact List.mem_cons_self, Nat.zero_le _⟩
  | miss c cs hmiss ih =>
    obtain ⟨before, after, ht, rfl⟩ := hoffset
    cases before with
    | nil => exact absurd ⟨after, ht.symm⟩ hmiss
    | cons d before =>
      obtain ⟨rfl, rfl⟩ := List.cons.inj ht
      obtain ⟨first, hfirst, hle⟩ := ih ⟨before, after, rfl, rfl⟩
      refine ⟨c.utf8Size + first, ?_, Nat.add_le_add_left hle _⟩
      rw [occurrences_cons_of_not_prefix_cons hmiss]
      exact List.mem_map_of_mem hfirst

theorem occurrences_eq_nil_iff (h : pattern ≠ []) (t : Text) : occurrences pattern t = [] ↔ ¬ pattern <:+: t := by
  rw [← exists_occursAt_iff, not_exists]
  constructor
  · intro hnil offset hoffset
    obtain ⟨first, hfirst, -⟩ := exists_mem_occurrences_le h hoffset
    simp [hnil] at hfirst
  · intro hnone
    exact List.eq_nil_iff_forall_not_mem.2 (fun o ho => hnone o (occursAt_of_mem_occurrences h o ho))

/-! ## Line by line -/

theorem prefix_append_sep_iff {sep : Char} {t rest : Text} (hsep : sep ∉ pattern) :
    pattern <+: t ++ sep :: rest ↔ pattern <+: t := by
  refine ⟨fun ⟨after, hafter⟩ => ?_, fun hstarts => hstarts.trans (List.prefix_append _ _)⟩
  obtain ⟨more, rfl, -⟩ | ⟨more, rfl, hmore⟩ := List.append_eq_append_iff.1 hafter
  · exact List.prefix_append _ _
  · cases more with
    | nil => simp
    | cons c more =>
      obtain ⟨rfl, -⟩ := List.cons.inj hmore
      exact absurd (List.mem_append_right t (List.mem_cons_self ..)) hsep

/-- No occurrence goes over a character that the pattern does not have. -/
theorem occurrences_append_sep {sep : Char} (hpattern : pattern ≠ []) (hsep : sep ∉ pattern) (t rest : Text) :
    occurrences pattern (t ++ sep :: rest) =
      occurrences pattern t ++ (occurrences pattern rest).map (byteSize t + sep.utf8Size + ·) := by
  induction t using search_induction hpattern with
  | nil =>
    have hmiss : ¬ pattern <+: [] ++ sep :: rest := by
      rw [prefix_append_sep_iff hsep, List.prefix_nil]
      exact hpattern
    rw [List.nil_append, occurrences_cons_of_not_prefix_cons hmiss, occurrences_nil, byteSize_nil, Nat.zero_add,
      List.nil_append]
  | hit t ih =>
    simp only [List.append_assoc, occurrences_pattern_append hpattern, ih, List.map_append, List.map_map,
      List.cons_append, byteSize_append, Function.comp_def, ← Nat.add_assoc]
  | miss c cs hmiss ih =>
    have hmiss' : ¬ pattern <+: c :: (cs ++ sep :: rest) := fun hstarts =>
      hmiss ((prefix_append_sep_iff (t := c :: cs) hsep).1 hstarts)
    simp only [List.cons_append, occurrences_cons_of_not_prefix_cons hmiss, occurrences_cons_of_not_prefix_cons hmiss', ih,
      List.map_append, List.map_map, byteSize_cons, Function.comp_def, ← Nat.add_assoc]

end Text
end IdeExport
