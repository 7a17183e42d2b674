import IdeExport.Path.Native
import IdeExport.Proofs.Path.Resolution
import Mathlib.Data.List.DropRight
/-!
# Pieces of a path

A file system reads a path as a start and the pieces after it, and puts paths together from these (`ofPieces`).  Reading
gives back what a path was put together from (`split_ofPieces`), except for pieces that name nothing.  So a name put
below a directory is found again at the end of the path, and the parent of the path is the directory, though it may be
spelled otherwise (`parent_under`).
-/
namespace IdeExport
namespace Path

/-! ## Reading pieces -/

def Start.lead : Start → List Text
  | .root => [[]]
  | .dot => [['.']]
  | .name => []

/-- Pieces as they are read after a start: without slashes, and the first one is what makes a path start at a name. -/
structure Reads (start : Start) (pieces : List Text) : Prop where
  plain : ∀ piece ∈ pieces, '/' ∉ piece
  head : start = .name → ∀ piece ∈ pieces.head?, isComponent piece = true

theorem Reads.mono {start : Start} {pieces first : List Text} (h : Reads start pieces) (hfirst : first <+: pieces) :
    Reads start first := by
  obtain ⟨rest, rfl⟩ := hfirst
  refine ⟨fun piece hpiece => h.plain piece (List.mem_append_left _ hpiece), fun hname piece hpiece => ?_⟩
  apply h.head hname
  cases first with
  | nil => cases hpiece
  | cons p ps => exact hpiece

theorem eq_nil_of_split_eq {path : Text} (h : Text.split '/' path = [[]]) : path = [] := by
  cases path with
  | nil => rfl
  | cons c cs =>
    unfold Text.split at h
    split at h
    · exact absurd (List.cons.inj h).2 (Text.split_ne_nil '/' cs)
    · cases hcs : Text.split '/' cs with
      | nil => exact absurd hcs (Text.split_ne_nil '/' cs)
      | cons p ps =>
        rw [hcs] at h
        cases h

theorem split_eq_lead_append {path : Text} (h : path ≠ []) :
    Text.split '/' path = (startAndPieces path).1.lead ++ (startAndPieces path).2 := by
  unfold startAndPieces
  split
  · rename_i pieces hsplit
    split
    · rename_i hpieces
      rw [List.isEmpty_iff.1 hpieces] at hsplit
      exact absurd (eq_nil_of_split_eq hsplit) h
    · exact hsplit
  · rename_i hsplit
    exact hsplit
  · rfl

theorem reads_startAndPieces (path : Text) : Reads (startAndPieces path).1 (startAndPieces path).2 := by
  have hplain : ∀ piece ∈ Text.split '/' path, '/' ∉ piece := fun _ => Text.not_mem_of_mem_split
  unfold startAndPieces
  split
  · rename_i pieces hsplit
    split
    · exact ⟨fun _ hpiece => absurd hpiece List.not_mem_nil, fun _ _ hpiece => by cases hpiece⟩
    · exact ⟨fun piece hpiece => hplain piece (by rw [hsplit]; exact List.mem_cons_of_mem _ hpiece),
        fun hname => by cases hname⟩
  · rename_i pieces hsplit
    exact ⟨fun piece hpiece => hplain piece (by rw [hsplit]; exact List.mem_cons_of_mem _ hpiece),
      fun hname => by cases hname⟩
  · rename_i hroot hdot
    refine ⟨hplain, fun _ piece hpiece => ?_⟩
    obtain ⟨rest, hrest⟩ : ∃ rest, Text.split '/' path = piece :: rest := by
      cases hsplit : Text.split '/' path with
      | nil => rw [hsplit] at hpiece; cases hpiece
      | cons p ps =>
        rw [hsplit] at hpiece
        exact ⟨ps, by rw [Option.mem_some.1 hpiece]⟩
    have hempty : piece ≠ [] := fun he => hroot rest (by rw [hrest, he])
    have hnotDot : piece ≠ ['.'] := fun he => hdot rest (by rw [hrest, he])
    simp [isComponent, hempty, hnotDot]

theorem head?_eq_slash_iff (path : Text) : path.head? = some '/' ↔ (startAndPieces path).1 = .root := by
  cases path with
  | nil => decide
  | cons c cs =>
    obtain ⟨piece, pieces, hsplit⟩ := List.exists_cons_of_ne_nil (Text.split_ne_nil '/' cs)
    unfold startAndPieces Text.split
    by_cases hc : c = '/'
    · simp [hc, hsplit]
    · rw [if_neg hc, hsplit, Text.attach, List.head?_cons]
      simp only [Option.some.injEq, hc, false_iff]
      split
      · rename_i heq
        cases heq
      · simp
      · simp

theorem components_eq_filter (path : Text) : components path = (startAndPieces path).2.filter isComponent := by
  by_cases hpath : path = []
  · rw [hpath]
    rfl
  · rw [components, split_eq_lead_append hpath, List.filter_append]
    cases (startAndPieces path).1 <;> rfl

theorem startAndPieces_of_split {path : Text} {start : Start} {pieces : List Text}
    (hsplit : Text.split '/' path = start.lead ++ pieces) (h : Reads start pieces)
    (hne : start ≠ .dot → pieces ≠ []) : startAndPieces path = (start, pieces) := by
  unfold startAndPieces
  cases start with
  | root =>
    rw [hsplit]
    simp [Start.lead, hne]
  | dot =>
    rw [hsplit]
    rfl
  | name =>
    obtain ⟨p, ps, rfl⟩ := List.exists_cons_of_ne_nil (hne (by decide))
    have hcomponent := h.head rfl p rfl
    rw [hsplit]
    simp only [Start.lead, List.nil_append]
    split
    · rename_i heq
      rw [(List.cons.inj heq).1] at hcomponent
      cases hcomponent
    · rename_i heq
      rw [(List.cons.inj heq).1] at hcomponent
      cases hcomponent
    · rfl

theorem split_ofPieces {start : Start} {pieces : List Text} (h : Reads start pieces) (hne : pieces ≠ []) :
    Text.split '/' (ofPieces start pieces) = start.lead ++ pieces := by
  have hjoin : Text.split '/' (Text.join "/" pieces) = pieces := Text.split_join hne h.plain
  obtain ⟨p, ps, rfl⟩ := List.exists_cons_of_ne_nil hne
  cases start with
  | root =>
    have hroot : '/' ∉ ([] : Text) := List.not_mem_nil
    exact (Text.split_append_cons hroot).trans (congrArg _ hjoin)
  | dot =>
    have hdot : '/' ∉ ['.'] := by decide
    exact (Text.split_append_cons hdot).trans (congrArg _ hjoin)
  | name => exact hjoin

/-! ## Pieces that name nothing -/

theorem exists_dropTrailing_append (pieces : List Text) :
    ∃ rest, pieces = dropTrailing pieces ++ rest ∧ ∀ piece ∈ rest, isComponent piece = false := by
  refine ⟨pieces.rtakeWhile (!isComponent ·), List.rdropWhile_append_rtakeWhile.symm, fun piece hpiece => ?_⟩
  simpa using List.mem_rtakeWhile_imp hpiece

theorem dropTrailing_concat {name : Text} (hname : isComponent name = true) (pieces : List Text) :
    dropTrailing (pieces ++ [name]) = pieces ++ [name] :=
  List.rdropWhile_concat_neg _ _ _ (by simp [hname])

theorem isComponent_of_dropTrailing {pieces front : List Text} {name : Text}
    (h : dropTrailing pieces = front ++ [name]) : isComponent name = true := by
  have hne : dropTrailing pieces ≠ [] := by simp [h]
  have hlast : ¬(!isComponent ((dropTrailing pieces).getLast hne)) = true := List.rdropWhile_last_not _ pieces hne
  simpa [h] using hlast

/-- The parent of a path is put together from what stands before its last component. -/
theorem parent_of_dropTrailing {path name : Text} {front : List Text}
    (h : dropTrailing (startAndPieces path).2 = front ++ [name]) :
    parent path = some (ofPieces (startAndPieces path).1 (dropTrailing front)) := by
  rw [parent]
  simp only [h]
  split
  · rename_i heq _
    exact absurd heq (by simp)
  · rename_i heq _
    exact absurd heq (by simp)
  · rw [List.dropLast_concat]

theorem filter_dropTrailing (pieces : List Text) :
    (dropTrailing pieces).filter isComponent = pieces.filter isComponent := by
  obtain ⟨rest, hpieces, hrest⟩ := exists_dropTrailing_append pieces
  have hnil : rest.filter isComponent = [] := List.filter_eq_nil_iff.2 (fun piece hpiece => by simp [hrest piece hpiece])
  conv => rhs; rw [hpieces, List.filter_append, hnil, List.append_nil]

/-! ## Names below directories -/

/-- Two paths that a file system takes for one: they start alike and have the same components. -/
def Same (path other : Text) : Prop :=
  (startAndPieces path).1 = (startAndPieces other).1 ∧
    (startAndPieces path).2.filter isComponent = (startAndPieces other).2.filter isComponent

theorem pieces_ne_nil_of_name {path : Text} (h : (startAndPieces path).1 = .name) (hpath : path ≠ []) :
    (startAndPieces path).2 ≠ [] := by
  intro hnil
  have hsplit := split_eq_lead_append hpath
  rw [h, hnil] at hsplit
  exact Text.split_ne_nil '/' path hsplit

theorem Reads.concat {start : Start} {pieces : List Text} (h : Reads start pieces) {name : Text}
    (hname : isComponent name = true) (hslash : '/' ∉ name) : Reads start (pieces ++ [name]) := by
  refine ⟨fun piece hpiece => ?_, fun hstart piece hpiece => ?_⟩
  · rcases List.mem_append.1 hpiece with hpiece | hpiece
    · exact h.plain piece hpiece
    · rw [List.mem_singleton.1 hpiece]
      exact hslash
  · cases pieces with
    | nil => rwa [← Option.mem_some.1 hpiece]
    | cons p ps => exact h.head hstart piece hpiece

/-- A name below a directory is the last piece; before it stand those of the directory, where a slash at the end has
left an empty piece. -/
theorem startAndPieces_under {directory name : Text} (hdirectory : directory ≠ []) (hname : isComponent name = true)
    (hslash : '/' ∉ name) :
    ∃ pieces, startAndPieces (under directory name) = ((startAndPieces directory).1, pieces ++ [name]) ∧
      ((startAndPieces directory).2 = pieces ∨ (startAndPieces directory).2 = pieces ++ [[]]) := by
  have hread := reads_startAndPieces directory
  have hsplit := split_eq_lead_append hdirectory
  generalize startAndPieces directory = own at hread hsplit ⊢
  obtain ⟨start, own⟩ := own
  have hnameSplit : Text.split '/' name = [name] := Text.split_of_not_mem hslash
  have hrelative : name.head? ≠ some '/' := fun h => hslash (List.mem_of_mem_head? h)
  have hnotEmpty : directory.isEmpty = false := by simpa using hdirectory
  by_cases hlast : directory.getLast? = some '/'
  · obtain ⟨front, rfl⟩ := List.getLast?_eq_some_iff.1 hlast
    have hunder : under (front ++ ['/']) name = front ++ '/' :: name := by
      simp [under, hrelative]
    rw [Text.split_append_sep] at hsplit
    -- what the slash leaves behind is the last piece of the directory
    obtain rfl | ⟨pieces, last, rfl⟩ := List.eq_nil_or_concat' own
    · have hempty : start.lead = Text.split '/' front ++ [[]] := (List.append_nil _).symm.trans hsplit.symm
      have hfront : start.lead.dropLast ≠ [] := by
        rw [hempty, List.dropLast_concat]
        exact Text.split_ne_nil '/' front
      cases start <;> exact absurd rfl hfront
    · have hsplit' : Text.split '/' front ++ [[]] = (start.lead ++ pieces) ++ [last] := by
        rw [List.append_assoc]
        exact hsplit
      obtain ⟨hfront, hpiece⟩ := List.append_inj' hsplit' rfl
      have hpieces : Reads start pieces := hread.mono (List.prefix_append _ _)
      refine ⟨pieces, startAndPieces_of_split ?_ (hpieces.concat hname hslash) (by simp), Or.inr ?_⟩
      · rw [hunder, Text.split_append_sep, hfront, hnameSplit, List.append_assoc]
      · rw [hpiece]
  · have hunder : under directory name = directory ++ '/' :: name := by
      simp [under, hrelative, hnotEmpty, hlast]
    refine ⟨own, startAndPieces_of_split ?_ (hread.concat hname hslash) (by simp), Or.inl rfl⟩
    rw [hunder, Text.split_append_sep, hsplit, hnameSplit, List.append_assoc]

theorem components_under {directory name : Text} (hdirectory : directory ≠ []) (hname : isComponent name = true)
    (hslash : '/' ∉ name) : components (under directory name) = components directory ++ [name] := by
  obtain ⟨pieces, hunder, hown⟩ := startAndPieces_under hdirectory hname hslash
  have hnothing : ([[]] : List Text).filter isComponent = [] := rfl
  rw [components_eq_filter, components_eq_filter directory, hunder, List.filter_append, List.filter_cons_of_pos hname,
    List.filter_nil]
  rcases hown with hown | hown
  · rw [hown]
  · rw [hown, List.filter_append, hnothing, List.append_nil]

theorem same_ofPieces {start : Start} {pieces : List Text} (h : Reads start pieces) (hne : start = .name → pieces ≠ []) :
    (startAndPieces (ofPieces start pieces)).1 = start ∧
      (startAndPieces (ofPieces start pieces)).2.filter isComponent = pieces.filter isComponent := by
  by_cases hnil : pieces = []
  · subst hnil
    cases start with
    | root => exact ⟨rfl, rfl⟩
    | dot => exact ⟨rfl, rfl⟩
    | name => exact absurd rfl (hne rfl)
  · rw [startAndPieces_of_split (split_ofPieces h hnil) h (fun _ => hnil)]
    exact ⟨rfl, rfl⟩

theorem ofPieces_ne_nil {start : Start} {pieces : List Text} (h : Reads start pieces)
    (hne : start = .name → pieces ≠ []) : ofPieces start pieces ≠ [] := by
  intro hnil
  obtain ⟨hstart, hcomponents⟩ := same_ofPieces h hne
  rw [hnil] at hstart hcomponents
  obtain ⟨p, ps, rfl⟩ := List.exists_cons_of_ne_nil (hne hstart.symm)
  rw [List.filter_cons_of_pos (h.head hstart.symm p rfl)] at hcomponents
  cases hcomponents

/-- The parent of a path starts as the path does and has all its components but the last one. -/
theorem exists_parent {path name : Text} {front : List Text}
    (h : dropTrailing (startAndPieces path).2 = front ++ [name])
    (hne : (startAndPieces path).1 = .name → dropTrailing front ≠ []) :
    ∃ parent, Path.parent path = some parent ∧ parent ≠ [] ∧ (startAndPieces parent).1 = (startAndPieces path).1 ∧
      (startAndPieces parent).2.filter isComponent = front.filter isComponent := by
  have hnamed : front ++ [name] <+: (startAndPieces path).2 := h ▸ List.rdropWhile_prefix _ _
  have hfront : dropTrailing front <+: front := List.rdropWhile_prefix _ _
  have hreads := (reads_startAndPieces path).mono (hfront.trans ((List.prefix_append _ _).trans hnamed))
  obtain ⟨hstart, hcomponents⟩ := same_ofPieces hreads hne
  rw [filter_dropTrailing] at hcomponents
  exact ⟨_, parent_of_dropTrailing h, ofPieces_ne_nil hreads hne, hstart, hcomponents⟩

/-- **The directory of a name below a directory is that directory.** -/
theorem parent_under {directory name : Text} (hdirectory : directory ≠ []) (hname : isComponent name = true)
    (hslash : '/' ∉ name) : ∃ parent, Path.parent (under directory name) = some parent ∧ Same parent directory := by
  obtain ⟨pieces, hunder, -⟩ := startAndPieces_under hdirectory hname hslash
  have htrailing : dropTrailing (startAndPieces (under directory name)).2 = pieces ++ [name] := by
    rw [hunder]
    exact dropTrailing_concat hname pieces
  have hfilter : pieces.filter isComponent = (startAndPieces directory).2.filter isComponent := by
    have hcomponents := components_under hdirectory hname hslash
    rw [components_eq_filter, hunder, List.filter_append, List.filter_cons_of_pos hname, List.filter_nil,
      components_eq_filter directory] at hcomponents
    exact List.append_cancel_right hcomponents
  have hne : (startAndPieces (under directory name)).1 = .name → dropTrailing pieces ≠ [] := by
    -- a path that starts at a name has that name as a component
    intro hstart hnil
    rw [hunder] at hstart
    obtain ⟨p, ps, hps⟩ := List.exists_cons_of_ne_nil (pieces_ne_nil_of_name hstart hdirectory)
    have hp : isComponent p = true := (reads_startAndPieces directory).head hstart p (by rw [hps]; rfl)
    rw [← filter_dropTrailing, hnil, hps, List.filter_cons_of_pos hp] at hfilter
    cases hfilter
  obtain ⟨parent, hparent, -, hstart, hcomponents⟩ := exists_parent htrailing hne
  rw [hunder] at hstart
  exact ⟨parent, hparent, hstart, hcomponents.trans hfilter⟩

theorem fileName_under {directory name : Text} (hdirectory : directory ≠ []) (hname : isComponent name = true)
    (hslash : '/' ∉ name) (hup : name ≠ stepUp) : fileName (under directory name) = some name := by
  obtain ⟨pieces, hunder, -⟩ := startAndPieces_under hdirectory hname hslash
  rw [fileName, hunder]
  simp only [dropTrailing_concat hname, List.getLast?_concat, if_neg hup]

end Path
end IdeExport
