import Mathlib.Data.List.Induction
/-!
# First occurrences

A list that is built from elements one after another, where those that are there already are passed over, keeps the
first occurrences (`keepsFirst_foldl`): each element once, in the order in which they come first.  Dropping the later
occurrences of a list comes to the same (`eraseDups_eq_foldl`).
-/
namespace IdeExport

variable {α : Type} [BEq α]

/-- A list has each element of another list once, in the order in which they come first there. -/
structure KeepsFirst (all kept : List α) : Prop where
  nodup : kept.Nodup
  mem_iff : ∀ x, x ∈ kept ↔ x ∈ all
  before_iff : ∀ x ∈ all, ∀ y ∈ all, kept.idxOf x < kept.idxOf y ↔ all.idxOf x < all.idxOf y

def addNew (kept : List α) (x : α) : List α := if kept.contains x then kept else kept ++ [x]

theorem keepsFirst_nil : KeepsFirst ([] : List α) [] where
  nodup := List.nodup_nil
  mem_iff := fun _ => Iff.rfl
  before_iff := fun _ hx => absurd hx List.not_mem_nil

variable [LawfulBEq α] {all kept : List α}

theorem addNew_of_mem {x : α} (h : x ∈ kept) : addNew kept x = kept := by
  simp [addNew, h]

theorem addNew_of_not_mem {x : α} (h : x ∉ kept) : addNew kept x = kept ++ [x] := by
  simp [addNew, h]

theorem KeepsFirst.concat_of_mem (h : KeepsFirst all kept) {x : α} (hx : x ∈ all) : KeepsFirst (all ++ [x]) kept := by
  have hsame : ∀ y, y ∈ all ++ [x] ↔ y ∈ all := fun y => by
    rw [List.mem_append, List.mem_singleton, or_iff_left_of_imp (fun e => e ▸ hx)]
  refine ⟨h.nodup, fun y => (h.mem_iff y).trans (hsame y).symm, fun y hy z hz => ?_⟩
  rw [hsame] at hy hz
  rw [List.idxOf_append, List.idxOf_append, if_pos hy, if_pos hz]
  exact h.before_iff y hy z hz

theorem KeepsFirst.concat_of_not_mem (h : KeepsFirst all kept) {x : α} (hx : x ∉ all) :
    KeepsFirst (all ++ [x]) (kept ++ [x]) := by
  refine ⟨?_, fun y => ?_, fun y hy z hz => ?_⟩
  · have hnew : x ∉ kept := fun hmem => hx ((h.mem_iff x).1 hmem)
    rw [List.nodup_append]
    exact ⟨h.nodup, List.pairwise_singleton _ x, fun y hy z hz e => hnew (List.mem_singleton.1 hz ▸ e ▸ hy)⟩
  · rw [List.mem_append, List.mem_append, h.mem_iff]
  -- the new element comes last in both lists
  · have hlast : ∀ w ∈ all ++ [x], w ∉ all → w = x := fun w hw hnot =>
      List.mem_singleton.1 ((List.mem_append.1 hw).resolve_left hnot)
    have hbefore : ∀ w ∈ all, kept.idxOf w < kept.length ∧ all.idxOf w < all.length := fun w hw =>
      ⟨List.idxOf_lt_length_of_mem ((h.mem_iff w).2 hw), List.idxOf_lt_length_of_mem hw⟩
    by_cases hyall : y ∈ all <;> by_cases hzall : z ∈ all
    · simpa only [List.idxOf_append, h.mem_iff, hyall, hzall, if_true] using h.before_iff y hyall z hzall
    · have hlt := hbefore y hyall
      simp only [List.idxOf_append, h.mem_iff, hyall, hzall, if_true, if_false]
      omega
    · have hlt := hbefore z hzall
      simp only [List.idxOf_append, h.mem_iff, hyall, hzall, if_true, if_false]
      omega
    · rw [hlast y hy hyall, hlast z hz hzall]
      simp only [Nat.lt_irrefl]

/-- **One more element keeps the first occurrences**, whether it is there already or not. -/
theorem KeepsFirst.addNew (h : KeepsFirst all kept) (x : α) : KeepsFirst (all ++ [x]) (addNew kept x) := by
  by_cases hx : x ∈ kept
  · rw [addNew_of_mem hx]
    exact h.concat_of_mem ((h.mem_iff x).1 hx)
  · rw [addNew_of_not_mem hx]
    exact h.concat_of_not_mem (fun hmem => hx ((h.mem_iff x).2 hmem))

theorem keepsFirst_foldl (h : KeepsFirst all kept) : ∀ xs : List α, KeepsFirst (all ++ xs) (xs.foldl addNew kept) := by
  intro xs
  induction xs generalizing all kept with
  | nil => simpa using h
  | cons x xs ih => simpa using ih (h.addNew x)

theorem eraseDups_concat (xs : List α) (x : α) : (xs ++ [x]).eraseDups = addNew xs.eraseDups x := by
  rw [List.eraseDups_append]
  by_cases hx : x ∈ xs
  · rw [addNew_of_mem (List.mem_eraseDups.2 hx)]
    simp [List.removeAll, hx]
  · rw [addNew_of_not_mem (fun hmem => hx (List.mem_eraseDups.1 hmem))]
    simp [List.removeAll, hx, List.eraseDups_cons]

theorem eraseDups_eq_foldl (xs : List α) : xs.eraseDups = xs.foldl addNew [] := by
  induction xs using List.reverseRecOn with
  | nil => rfl
  | append_singleton xs x ih => rw [eraseDups_concat, ih, List.foldl_append, List.foldl_cons, List.foldl_nil]

/-- **What is left of a list without repetitions keeps its first occurrences.** -/
theorem keepsFirst_eraseDups (xs : List α) : KeepsFirst xs xs.eraseDups := by
  rw [eraseDups_eq_foldl]
  exact keepsFirst_foldl keepsFirst_nil xs

theorem KeepsFirst.pairwise (h : KeepsFirst all kept) : kept.Pairwise (fun x y => all.idxOf x < all.idxOf y) := by
  rw [List.pairwise_iff_getElem]
  intro i j hi hj hlt
  have hmem : ∀ k (hk : k < kept.length), kept[k] ∈ all := fun k hk => (h.mem_iff _).1 (List.getElem_mem hk)
  rw [← h.before_iff _ (hmem i hi) _ (hmem j hj), h.nodup.idxOf_getElem i hi, h.nodup.idxOf_getElem j hj]
  exact hlt

end IdeExport
