import IdeExport.Proofs.FileTree.Writing
import IdeExport.Proofs.Path.Pieces
/-!
# Ways through a tree

Following a path leads from its start through one location after another (`way`), and which ones these are does not
depend on the tree: the tree only decides whether the way is open.  Pieces that name nothing stay where they are, so the
way is given by the components.  The way to a file is the way to its directory and one more step (`mem_way_cases`).
-/
namespace IdeExport
namespace FileTree

variable {tree other : FileTree} {location goal working : Location} {path : Text}

/-! ## Pieces -/

/-- The locations that pieces lead through, the first and the last one included. -/
def visits (location : Location) : List Text → List Location
  | [] => [location]
  | piece :: pieces => location :: visits (step location piece) pieces

theorem self_mem_visits (location : Location) (pieces : List Text) : location ∈ visits location pieces := by
  cases pieces <;> exact List.mem_cons_self

theorem end_mem_visits : ∀ (pieces : List Text) (location : Location), pieces.foldl step location ∈ visits location pieces
  | [], _ => List.mem_cons_self
  | _ :: pieces, _ => List.mem_cons_of_mem _ (end_mem_visits pieces _)

theorem mem_visits_append {d : Location} (others : List Text) : ∀ (pieces : List Text) (location : Location),
    d ∈ visits location (pieces ++ others) ↔
      d ∈ visits location pieces ∨ d ∈ visits (pieces.foldl step location) others
  | [], location => by
    rw [List.nil_append, visits, List.mem_singleton, List.foldl_nil]
    exact ⟨Or.inr, fun h => h.elim (fun h => h ▸ self_mem_visits location others) id⟩
  | piece :: pieces, location => by
    rw [List.cons_append, visits, visits, List.mem_cons, List.mem_cons, mem_visits_append others pieces,
      List.foldl_cons, or_assoc]

theorem step_of_not_isComponent {piece : Text} (h : Path.isComponent piece = false) (location : Location) :
    step location piece = location := by
  have hup : piece ≠ Path.stepUp := by
    rintro rfl
    cases h
  rw [step, if_neg hup, if_neg (by simp [h])]

theorem foldl_step_filter : ∀ (pieces : List Text) (location : Location),
    (pieces.filter Path.isComponent).foldl step location = pieces.foldl step location
  | [], _ => rfl
  | piece :: pieces, location => by
    rw [List.foldl_cons, ← foldl_step_filter pieces]
    by_cases hpiece : Path.isComponent piece = true
    · rw [List.filter_cons_of_pos hpiece, List.foldl_cons]
    · rw [List.filter_cons_of_neg hpiece, step_of_not_isComponent (Bool.eq_false_iff.2 hpiece)]

theorem mem_visits_filter {d : Location} : ∀ (pieces : List Text) (location : Location),
    d ∈ visits location (pieces.filter Path.isComponent) ↔ d ∈ visits location pieces
  | [], _ => Iff.rfl
  | piece :: pieces, location => by
    by_cases hpiece : Path.isComponent piece = true
    · rw [List.filter_cons_of_pos hpiece, visits, visits, List.mem_cons, List.mem_cons, mem_visits_filter pieces]
    · rw [List.filter_cons_of_neg hpiece, visits, step_of_not_isComponent (Bool.eq_false_iff.2 hpiece), List.mem_cons,
        mem_visits_filter pieces]
      refine ⟨Or.inr, fun h => h.elim (fun h => ?_) id⟩
      rw [h]
      exact self_mem_visits location pieces

/-! ## Following -/

theorem follow_append (tree : FileTree) (others : List Text) : ∀ (pieces : List Text) (location : Location),
    tree.follow location (pieces ++ others) = (tree.follow location pieces).bind (tree.follow · others)
  | [], _ => rfl
  | piece :: pieces, location => by
    rw [List.cons_append, follow, follow, follow_append tree others pieces]
    split <;> rfl

theorem eq_end_of_follow : ∀ {pieces : List Text} {location : Location},
    tree.follow location pieces = some goal → goal = pieces.foldl step location
  | [], _, h => (Option.some.inj h).symm
  | piece :: pieces, location, h => by
    unfold follow at h
    split at h
    · rw [List.foldl_cons]
      exact eq_end_of_follow h
    · cases h

theorem directory_of_mem_visits : ∀ {pieces : List Text} {location : Location},
    tree.follow location pieces = some goal → tree.entryAt? goal = some .directory →
      ∀ d ∈ visits location pieces, tree.entryAt? d = some .directory
  | [], location, h, hgoal, d, hd => by
    rw [List.mem_singleton.1 hd, Option.some.inj h]
    exact hgoal
  | piece :: pieces, location, h, hgoal, d, hd => by
    unfold follow at h
    split at h
    · rename_i hway
      rcases List.mem_cons.1 hd with rfl | hd
      · exact hway.1
      · exact directory_of_mem_visits h hgoal d hd
    · cases h

theorem follow_congr : ∀ {pieces : List Text} {location : Location},
    (∀ d ∈ visits location pieces, (other.entryAt? d = some .directory ↔ tree.entryAt? d = some .directory)) →
      other.follow location pieces = tree.follow location pieces
  | [], _, _ => rfl
  | piece :: pieces, location, h => by
    have hfirst := h location (self_mem_visits _ _)
    have hrest := follow_congr fun d hd => h d (List.mem_cons_of_mem _ hd)
    unfold follow
    simp only [hfirst, hrest]

/-! ## Paths -/

/-- Where pieces, or those of a path, are followed from. -/
def origin (working : Location) (start : Path.Start) : Location := if start = .root then [] else working

def startOf (working : Location) (path : Text) : Location := origin working (Path.startAndPieces path).1

def way (working : Location) (path : Text) : List Location := visits (startOf working path) (Path.components path)

/-- The location that a path leads to if its way is open. -/
def placeOf (working : Location) (path : Text) : Location := (Path.components path).foldl step (startOf working path)

theorem placeOf_mem_way (working : Location) (path : Text) : placeOf working path ∈ way working path :=
  end_mem_visits _ _

theorem mem_way_iff {d : Location} :
    d ∈ way working path ↔ d ∈ visits (startOf working path) (Text.split '/' path) := mem_visits_filter _ _

theorem placeOf_eq (working : Location) (path : Text) :
    placeOf working path = (Text.split '/' path).foldl step (startOf working path) :=
  foldl_step_filter _ _

theorem locate_eq (tree : FileTree) (path : Text) : tree.locate path =
    if path.isEmpty || !isSpellable path then none
    else tree.follow (startOf tree.working path) (Text.split '/' path) := by
  rw [locate, startOf, origin]
  simp only [Path.head?_eq_slash_iff]

theorem eq_placeOf_of_locate (h : tree.locate path = some location) : location = placeOf tree.working path := by
  rw [locate_eq] at h
  split at h
  · cases h
  · rw [placeOf_eq]
    exact eq_end_of_follow h

theorem locate_congr (hworking : other.working = tree.working)
    (h : ∀ d ∈ way tree.working path, (other.entryAt? d = some .directory ↔ tree.entryAt? d = some .directory)) :
    other.locate path = tree.locate path := by
  rw [locate_eq, locate_eq, hworking, follow_congr fun d hd => h d (mem_way_iff.2 hd)]

theorem locate_eq_none (h : tree.entryAt? (startOf tree.working path) ≠ some .directory) : tree.locate path = none := by
  obtain ⟨piece, pieces, hsplit⟩ := List.exists_cons_of_ne_nil (Text.split_ne_nil '/' path)
  have hfollow : tree.follow (startOf tree.working path) (piece :: pieces) = none := by
    rw [follow, if_neg (fun hway => h hway.1)]
  rw [locate_eq, hsplit, hfollow, ite_self]

/-! ## The directory of a path -/

/-- A path without components has the working directory for its directory; any other one has one component more than
its directory. -/
theorem components_directoryOf (working : Location) (path : Text) :
    (Path.components path = [] ∧ directoryOf path = ".") ∨
    ∃ name, Path.components path = Path.components (directoryOf path) ++ [name] ∧
      startOf working (directoryOf path) = startOf working path := by
  have hcomponents := Path.components_eq_filter path
  rw [← Path.filter_dropTrailing] at hcomponents
  obtain hnil | ⟨front, name, hnamed⟩ := List.eq_nil_or_concat' (Path.dropTrailing (Path.startAndPieces path).2)
  · left
    refine ⟨by rw [hcomponents, hnil]; rfl, ?_⟩
    unfold directoryOf Path.parent
    simp only [hnil]
    cases (Path.startAndPieces path).1 <;> rfl
  · right
    have hname : Path.isComponent name = true := Path.isComponent_of_dropTrailing hnamed
    refine ⟨name, ?_⟩
    rw [hcomponents, hnamed, List.filter_append, List.filter_cons_of_pos hname, List.filter_nil]
    by_cases hhere : (Path.startAndPieces path).1 = .name ∧ Path.dropTrailing front = []
    -- a single name is in the working directory, which is then written as a dot
    · have hdirectory : directoryOf path = "." := by
        unfold directoryOf
        rw [Path.parent_of_dropTrailing hnamed, hhere.1, hhere.2]
        rfl
      rw [hdirectory, ← Path.filter_dropTrailing, hhere.2]
      exact ⟨rfl, by rw [startOf, startOf, hhere.1]; rfl⟩
    · obtain ⟨parent, hparent, hne, hstart, hsame⟩ :=
        Path.exists_parent hnamed fun hstart hnil => hhere ⟨hstart, hnil⟩
      have hdirectory : directoryOf path = parent := by
        obtain ⟨c, cs, rfl⟩ := List.exists_cons_of_ne_nil hne
        unfold directoryOf
        rw [hparent]
      rw [hdirectory, Path.components_eq_filter parent, hsame]
      exact ⟨rfl, congrArg (origin working) hstart⟩

/-- The way to the directory of a path is on the way to the path, unless that directory is the working one. -/
theorem mem_way_of_mem_directoryOf {d : Location} (h : d ∈ way working (directoryOf path)) :
    d = working ∨ d ∈ way working path := by
  obtain ⟨-, hdirectory⟩ | ⟨name, hcomponents, hstart⟩ := components_directoryOf working path
  · rw [hdirectory] at h
    exact Or.inl (List.mem_singleton.1 h)
  · right
    rw [way, hstart] at h
    rw [way, hcomponents]
    exact (mem_visits_append _ _ _).2 (Or.inl h)

/-- The way to a path is the way to its directory and one more step. -/
theorem mem_way_cases {d : Location} (h : d ∈ way working path) :
    d ∈ way working (directoryOf path) ∨ d = placeOf working path := by
  obtain ⟨hnil, -⟩ | ⟨name, hcomponents, hstart⟩ := components_directoryOf working path
  · rw [way, hnil] at h
    rw [placeOf, hnil]
    exact Or.inr (List.mem_singleton.1 h)
  · rw [way, hcomponents, ← hstart] at h
    rcases (mem_visits_append _ _ _).1 h with h | h
    · exact Or.inl h
    · rcases List.mem_cons.1 h with rfl | h
      · exact Or.inl (placeOf_mem_way working (directoryOf path))
      · right
        rw [placeOf, hcomponents, List.foldl_append, ← hstart]
        exact List.mem_singleton.1 h

end FileTree
end IdeExport
