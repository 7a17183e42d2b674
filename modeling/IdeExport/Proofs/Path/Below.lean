import IdeExport.Proofs.Path.Resolution
/-!
# Paths below a directory

A path is below a directory if its components begin with those of the directory.  The text of the directory may be a
prefix of the path and the path still not be below it: then the path goes through a directory beside it whose name
goes on where the other one ends (`isBelow_or_isBeside_of_prefix`).  Of plainly spelled paths the text test takes
exactly these two sorts (`prefix_iff_of_isPlain`).
-/
namespace IdeExport
namespace Path

/-- A directory's components are the first ones of the path. -/
def IsBelow (directory path : Text) : Prop := components directory <+: components path

/-- The path goes through a directory whose name goes on after the last name of another one. -/
def IsBeside (directory path : Text) : Prop :=
  ∃ front name more, more ≠ [] ∧ components directory = front ++ [name] ∧ front ++ [name ++ more] <+: components path

/-- An absolute path with one slash before each of its components and nothing else in it. -/
def IsPlain (path : Text) : Prop := path = (components path).flatMap ('/' :: ·)

/-! ## Components of texts put together -/

theorem components_of_not_mem {t : Text} (h : '/' ∉ t) : components t = if isComponent t then [t] else [] := by
  rw [components, Text.split_of_not_mem h]
  by_cases ht : isComponent t = true
  · rw [List.filter_cons_of_pos ht, if_pos ht, List.filter_nil]
  · rw [List.filter_cons_of_neg ht, if_neg ht, List.filter_nil]

/-- What is written behind a text can only change its last name. -/
theorem components_append_right (t : Text) :
    ∃ front name, '/' ∉ name ∧ ∀ rest, components (t ++ rest) = front ++ components (name ++ rest) := by
  cases hsplit : Text.splitLast '/' t with
  | none => exact ⟨[], t, Text.not_mem_of_splitLast_eq_none hsplit, fun rest => rfl⟩
  | some halves =>
    obtain ⟨before, name⟩ := halves
    obtain ⟨ht, hname⟩ := Text.splitLast_eq_some hsplit
    refine ⟨components before, name, hname, fun rest => ?_⟩
    rw [ht, List.append_assoc, List.cons_append, components_append_slash]

/-- What is written before a text can only change its first name. -/
theorem components_append_left (t : Text) :
    ∃ name others, '/' ∉ name ∧ ∀ front, components (front ++ t) = components (front ++ name) ++ others := by
  by_cases hslash : '/' ∈ t
  · obtain ⟨name, rest, ht, hname⟩ := List.eq_append_cons_of_mem hslash
    refine ⟨name, components rest, hname, fun front => ?_⟩
    rw [ht, ← List.append_assoc, components_append_slash]
  · exact ⟨t, [], hslash, fun front => (List.append_nil _).symm⟩

/-! ## The text test -/

theorem isComponent_append {name : Text} (h : isComponent name = true) (more : Text) :
    isComponent (name ++ more) = true := by
  simp only [isComponent, Bool.and_eq_true, decide_eq_true_eq] at h ⊢
  obtain ⟨hne, hdot⟩ := h
  cases name with
  | nil => exact absurd rfl hne
  | cons c cs =>
    refine ⟨List.cons_ne_nil _ _, fun heq => ?_⟩
    rw [List.cons_append, List.cons.injEq, List.append_eq_nil_iff] at heq
    exact hdot (by rw [heq.1, heq.2.1])

theorem isBelow_or_isBeside_of_prefix {directory path : Text} (h : directory <+: path) :
    IsBelow directory path ∨ IsBeside directory path := by
  obtain ⟨rest, rfl⟩ := h
  obtain ⟨front, name, hname, hfront⟩ := components_append_right directory
  obtain ⟨more, others, hmore, hothers⟩ := components_append_left rest
  have hdirectory : components directory = front ++ components name := by
    have hnil := hfront []
    rwa [List.append_nil, List.append_nil] at hnil
  have hpath : components (directory ++ rest) = front ++ (components (name ++ more) ++ others) := by
    rw [hfront, hothers]
  by_cases hcomponent : isComponent name = true
  · by_cases hnil : more = []
    · left
      rw [IsBelow, hdirectory, hpath, hnil, List.append_nil, ← List.append_assoc]
      exact List.prefix_append _ _
    -- the last name of the directory goes on in the path
    · right
      have hlong : '/' ∉ name ++ more := fun hmem => (List.mem_append.1 hmem).elim hname hmore
      rw [components_of_not_mem hname, if_pos hcomponent] at hdirectory
      rw [components_of_not_mem hlong, if_pos (isComponent_append hcomponent more)] at hpath
      refine ⟨front, name, more, hnil, hdirectory, others, ?_⟩
      rw [hpath, List.append_assoc]
  -- the directory ends in a slash or a dot, so what follows is a component of its own
  · left
    rw [components_of_not_mem hname, if_neg hcomponent, List.append_nil] at hdirectory
    rw [IsBelow, hdirectory, hpath]
    exact List.prefix_append _ _

/-- **Of plainly spelled paths the text of a directory is a prefix of those below it and of those beside it.** -/
theorem prefix_iff_of_isPlain {directory path : Text} (hdirectory : IsPlain directory) (hpath : IsPlain path) :
    directory <+: path ↔ IsBelow directory path ∨ IsBeside directory path := by
  constructor
  · exact isBelow_or_isBeside_of_prefix
  · rintro (⟨others, hbelow⟩ | ⟨front, name, more, -, hnames, others, hbeside⟩)
    · have hspelled : path = directory ++ others.flatMap ('/' :: ·) := by
        rw [hpath, ← hbelow, List.flatMap_append, ← hdirectory]
      rw [hspelled]
      exact List.prefix_append _ _
    · have hspelled : path = directory ++ (more ++ others.flatMap ('/' :: ·)) := by
        rw [hpath, ← hbeside, hdirectory, hnames]
        simp only [List.flatMap_append, List.flatMap_cons, List.flatMap_nil, List.append_assoc, List.cons_append,
          List.nil_append]
      rw [hspelled]
      exact List.prefix_append _ _

end Path
end IdeExport
