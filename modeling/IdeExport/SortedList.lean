/-!
# Sorted lists

A finite set is kept as a strictly increasing list, and a finite map as a list of pairs whose keys are strictly
increasing.  The order is part of what is said, and two of them with the same elements are equal.
-/
namespace IdeExport
namespace SortedList

theorem lt_of_ne_of_not_lt {α : Type} [LT α] [LE α] [Std.IsLinearOrder α] [Std.LawfulOrderLT α] {x y : α}
    (hne : x ≠ y) (hlt : ¬ x < y) : y < x :=
  Std.lt_of_le_of_ne (Std.not_lt.1 hlt) hne.symm

variable {α β : Type} [DecidableEq α] [LT α] [DecidableLT α]

/-! ## Operations -/

/-- Put an element in its place, unless it is there already. -/
def insert (x : α) : List α → List α
  | [] => [x]
  | y :: ys =>
    if x = y then y :: ys
    else if x < y then x :: y :: ys
    else y :: insert x ys

/-- The elements of a list in order, each of them once. -/
def ofList (xs : List α) : List α := xs.foldr insert []

/-- Change the value under a key, which is `none` while the key is absent. -/
def alter (x : α) (f : Option β → β) : List (α × β) → List (α × β)
  | [] => [(x, f none)]
  | (y, b) :: rest =>
    if x = y then (y, f (some b)) :: rest
    else if x < y then (x, f none) :: (y, b) :: rest
    else (y, b) :: alter x f rest

/-! ## Elements -/

@[simp] theorem mem_insert {x z : α} : ∀ {ys : List α}, z ∈ insert x ys ↔ z = x ∨ z ∈ ys
  | [] => by simp [insert]
  | y :: ys => by
    unfold insert
    split
    · rename_i h
      subst h
      simp
    · split
      · simp
      · have ih : z ∈ insert x ys ↔ z = x ∨ z ∈ ys := mem_insert
        simp only [List.mem_cons, ih]
        grind

@[simp] theorem mem_ofList {z : α} : ∀ {xs : List α}, z ∈ ofList xs ↔ z ∈ xs
  | [] => by simp [ofList]
  | x :: xs => by
    rw [show ofList (x :: xs) = insert x (ofList xs) from rfl, mem_insert, mem_ofList, List.mem_cons]

/-- The keys of a map after a change are the old ones and the changed one. -/
@[simp] theorem mem_keys_alter {x z : α} {f : Option β → β} : ∀ {entries : List (α × β)},
    z ∈ (alter x f entries).map (·.1) ↔ z = x ∨ z ∈ entries.map (·.1)
  | [] => by simp [alter]
  | (y, b) :: rest => by
    unfold alter
    split
    · rename_i h
      subst h
      simp
    · split
      · simp
      · have ih : z ∈ (alter x f rest).map (·.1) ↔ z = x ∨ z ∈ rest.map (·.1) := mem_keys_alter
        rw [List.map_cons, List.mem_cons, ih, List.map_cons, List.mem_cons]
        grind

/-! ## Order -/

variable [LE α] [Std.IsLinearOrder α] [Std.LawfulOrderLT α]

theorem pairwise_insert {x : α} : ∀ {ys : List α}, ys.Pairwise (· < ·) → (insert x ys).Pairwise (· < ·)
  | [], _ => by simp [insert]
  | y :: ys, h => by
    obtain ⟨hy, hys⟩ := List.pairwise_cons.1 h
    unfold insert
    split
    · exact h
    · rename_i hne
      split
      · rename_i hlt
        refine List.pairwise_cons.2 ⟨fun z hz => ?_, h⟩
        rcases List.mem_cons.1 hz with rfl | hz
        · exact hlt
        · exact Std.lt_trans hlt (hy z hz)
      · rename_i hlt
        refine List.pairwise_cons.2 ⟨fun z hz => ?_, pairwise_insert hys⟩
        rcases mem_insert.1 hz with rfl | hz
        · exact lt_of_ne_of_not_lt hne hlt
        · exact hy z hz

theorem pairwise_ofList : ∀ xs : List α, (ofList xs).Pairwise (· < ·)
  | [] => List.Pairwise.nil
  | _ :: xs => pairwise_insert (pairwise_ofList xs)

theorem pairwise_keys_alter {x : α} {f : Option β → β} : ∀ {entries : List (α × β)},
    (entries.map (·.1)).Pairwise (· < ·) → ((alter x f entries).map (·.1)).Pairwise (· < ·)
  | [], _ => by simp [alter]
  | (y, b) :: rest, h => by
    obtain ⟨hy, hrest⟩ := List.pairwise_cons.1 h
    unfold alter
    split
    · exact h
    · rename_i hne
      split
      · rename_i hlt
        refine List.pairwise_cons.2 ⟨fun z hz => ?_, h⟩
        rcases List.mem_cons.1 hz with rfl | hz
        · exact hlt
        · exact Std.lt_trans hlt (hy z hz)
      · rename_i hlt
        refine List.pairwise_cons.2 ⟨fun z hz => ?_, pairwise_keys_alter hrest⟩
        rcases mem_keys_alter.1 hz with rfl | hz
        · exact lt_of_ne_of_not_lt hne hlt
        · exact hy z hz

theorem alter_of_forall_lt {x : α} {f : Option β → β} : ∀ {entries : List (α × β)},
    (∀ y ∈ entries.map (·.1), y < x) → alter x f entries = entries ++ [(x, f none)]
  | [], _ => rfl
  | (y, b) :: rest, h => by
    obtain ⟨hy, hrest⟩ := List.forall_mem_cons.1 h
    have hne : x ≠ y := by
      rintro rfl
      exact Std.lt_irrefl hy
    have hnot : ¬ x < y := fun hlt => Std.lt_irrefl (Std.lt_trans hlt hy)
    rw [alter, if_neg hne, if_neg hnot, alter_of_forall_lt hrest, List.cons_append]

/-! ## Values -/

section

variable [BEq α] [LawfulBEq α]

omit [DecidableEq α] [DecidableLT α] [Std.IsLinearOrder α] in
/-- In a map with its keys in order, a key that is below all others is not there. -/
theorem lookup_eq_none_of_lt {x : α} {entries : List (α × β)} (h : ∀ y ∈ entries.map (·.1), x < y) :
    entries.lookup x = none := by
  rw [List.lookup_eq_none_iff]
  intro entry hentry
  have hlt := h entry.1 (List.mem_map_of_mem hentry)
  have hne : x ≠ entry.1 := fun e => Std.lt_irrefl (e ▸ hlt)
  simpa using hne

/-- A change of the value under one key leaves every other value as it was. -/
theorem lookup_alter {x z : α} {f : Option β → β} : ∀ {entries : List (α × β)},
    (entries.map (·.1)).Pairwise (· < ·) →
    (alter x f entries).lookup z = if z = x then some (f (entries.lookup x)) else entries.lookup z
  | [], _ => by
    by_cases hz : z = x
    · simp [alter, hz]
    · have hb : (z == x) = false := by simpa using hz
      simp [alter, List.lookup_cons, hz, hb]
  | (y, b) :: rest, h => by
    obtain ⟨hy, hrest⟩ := List.pairwise_cons.1 h
    unfold alter
    split
    · rename_i hxy
      subst hxy
      by_cases hz : z = x
      · simp [hz]
      · have hb : (z == x) = false := by simpa using hz
        simp [List.lookup_cons, hz, hb]
    · rename_i hxy
      split
      · rename_i hlt
        have hnone : ((y, b) :: rest).lookup x = none := by
          refine lookup_eq_none_of_lt (fun w hw => ?_)
          rcases List.mem_cons.1 hw with rfl | hw
          · exact hlt
          · exact Std.lt_trans hlt (hy w hw)
        rw [hnone]
        by_cases hz : z = x
        · simp [hz]
        · have hb : (z == x) = false := by simpa using hz
          rw [List.lookup_cons, hb, if_neg hz]
      · rw [List.lookup_cons, List.lookup_cons, List.lookup_cons, lookup_alter hrest]
        by_cases hz : z = y
        · subst hz
          have hzx : z ≠ x := fun e => hxy e.symm
          simp [hzx]
        · have hb : (z == y) = false := by simpa using hz
          have hbx : (x == y) = false := by simpa using hxy
          simp [hb, hbx]

omit [DecidableEq α] [DecidableLT α] [Std.IsLinearOrder α] in
/-- A map with its keys in order has one value for each key. -/
theorem lookup_of_mem {x : α} {b : β} : ∀ {entries : List (α × β)}, (entries.map (·.1)).Pairwise (· < ·) →
    (x, b) ∈ entries → entries.lookup x = some b
  | (y, c) :: rest, h, hmem => by
    obtain ⟨hy, hrest⟩ := List.pairwise_cons.1 h
    rcases List.mem_cons.1 hmem with heq | hmem
    · cases heq
      simp
    · have hlt : y < x := hy x (List.mem_map.2 ⟨(x, b), hmem, rfl⟩)
      have hb : (x == y) = false := by
        have hne : x ≠ y := fun e => Std.lt_irrefl (e ▸ hlt)
        simpa using hne
      rw [List.lookup_cons, hb]
      exact lookup_of_mem hrest hmem

end

omit [DecidableEq α] [DecidableLT α] [Std.IsLinearOrder α] in
theorem nodup_of_pairwise_lt {xs : List α} (h : xs.Pairwise (· < ·)) : xs.Nodup := by
  refine h.imp ?_
  rintro x y hlt rfl
  exact Std.lt_irrefl hlt

omit [DecidableEq α] [DecidableLT α] in
theorem eq_of_mem_iff {xs ys : List α} (hxs : xs.Pairwise (· < ·)) (hys : ys.Pairwise (· < ·))
    (h : ∀ z, z ∈ xs ↔ z ∈ ys) : xs = ys := by
  have hperm : xs.Perm ys := (List.perm_ext_iff_of_nodup (nodup_of_pairwise_lt hxs) (nodup_of_pairwise_lt hys)).2 h
  exact hperm.eq_of_pairwise (fun _ _ _ _ hlt hgt => absurd (Std.lt_trans hlt hgt) Std.lt_irrefl) hxs hys

end SortedList

end IdeExport
