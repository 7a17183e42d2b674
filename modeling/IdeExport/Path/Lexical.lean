import IdeExport.Text.Basic
/-!
# Paths as text

Paths are written into a descriptor as they were given, so they are handled as text with a slash between
components and nothing is looked up on a disk.  `Path.Native` holds the operations of a file system.
-/
namespace IdeExport
namespace Path

/-! ## Components -/

/-- Whether a piece between slashes names something: it is neither empty nor a single dot. -/
def isComponent (piece : Text) : Bool := piece ≠ [] && piece ≠ ['.']

def components (path : Text) : List Text := (Text.split '/' path).filter isComponent

/-- What is left of two lists when the elements they begin with in common are dropped. -/
def dropCommon : List Text → List Text → List Text × List Text
  | a :: as, b :: bs => if a = b then dropCommon as bs else (a :: as, b :: bs)
  | as, bs => (as, bs)

def stepUp : Text := ".."

/-- The components that lead from a base directory to a path: one step up for each component of the base
beyond the common ones, then the rest of the path. -/
def stepsFrom (base path : Text) : List Text :=
  let (up, down) := dropCommon (components base) (components path)
  up.map (fun _ => stepUp) ++ down

def relativeTo (base path : Text) : Text := Text.join "/" (stepsFrom base path)

/-! ## Parts of a path -/

/-- Everything before the last slash. -/
def parentDirectory (path : Text) : Option Text := (Text.splitLast '/' path).map (·.1)

/-- Everything after the last slash. -/
def lastName (path : Text) : Text :=
  match Text.splitLast '/' path with
  | some (_, name) => name
  | none => path

/-- The last name up to its first dot. -/
def baseName (path : Text) : Text := (lastName path).takeWhile (· ≠ '.')

/-- What follows the last dot of a name, unless nothing stands before that dot. -/
def nameExtension (name : Text) : Option Text :=
  match Text.splitLast '.' name with
  | some (stem, extension) => if stem.isEmpty then none else some extension
  | none => none

def fileExtension (path : Text) : Option Text := nameExtension (lastName path)

/-- A path below a directory.  An absolute path stays as it is, and a slash is put between unless the
directory is empty or ends in one. -/
def under (directory path : Text) : Text :=
  if path.head? = some '/' then path
  else if directory.isEmpty || directory.getLast? = some '/' then directory ++ path
  else directory ++ "/" ++ path

/-! ## Laws -/

theorem isComponent_of_mem_components {path c : Text} (h : c ∈ components path) : isComponent c = true :=
  (List.mem_filter.1 h).2

/-- What is dropped from two lists is the longest list that both begin with. -/
theorem dropCommon_longest : ∀ as bs : List Text, ∃ common,
    as = common ++ (dropCommon as bs).1 ∧ bs = common ++ (dropCommon as bs).2 ∧
      ∀ shared, shared <+: as → shared <+: bs → shared <+: common
  | [], bs => ⟨[], by simp [dropCommon], by simp [dropCommon], fun _ hleft _ => hleft⟩
  | a :: as, [] => ⟨[], by simp [dropCommon], by simp [dropCommon], fun _ _ hright => hright⟩
  | a :: as, b :: bs => by
    unfold dropCommon
    split
    · rename_i hab
      subst hab
      obtain ⟨common, hleft, hright, hlongest⟩ := dropCommon_longest as bs
      refine ⟨a :: common, congrArg (a :: ·) hleft, congrArg (a :: ·) hright, fun shared hshared hshared' => ?_⟩
      cases shared with
      | nil => exact List.nil_prefix
      | cons c shared =>
        obtain ⟨rfl, htail⟩ := List.cons_prefix_cons.1 hshared
        exact List.cons_prefix_cons.2 ⟨rfl, hlongest shared htail (List.cons_prefix_cons.1 hshared').2⟩
    · rename_i hab
      refine ⟨[], rfl, rfl, fun shared hshared hshared' => ?_⟩
      cases shared with
      | nil => exact List.nil_prefix
      -- the first elements differ, so nothing is shared
      | cons c shared =>
        obtain ⟨rfl, -⟩ := List.cons_prefix_cons.1 hshared
        exact absurd (List.cons_prefix_cons.1 hshared').1 hab

end Path
end IdeExport
