import IdeExport.Path.Native
/-!
# File trees

A file tree says what is at each location: a directory, a file with its content, or nothing.  Writing a file is
a function from trees to trees, so what a failed write leaves behind can be stated.

A file is written under a fresh name in its directory and then moved to its place in one step.  The fresh name
is never seen by anybody, so only its length counts here: a write that fails before the move changes no file, and
one that reaches it either replaces the file as a whole or, where no file can be, does nothing.
-/
namespace IdeExport

/-- The names that lead from the root of a file tree to a place in it. -/
abbrev Location := List Text

inductive Entry
  | directory
  | file (content : Text)
  deriving DecidableEq, Repr

/-- What is at each location, and the location at which relative paths start.  The root is a directory. -/
structure FileTree where
  working : Location := []
  entries : List (Location × Entry) := []
  deriving Repr

namespace FileTree

def entryAt? (tree : FileTree) (location : Location) : Option Entry :=
  if location.isEmpty then some .directory else tree.entries.lookup location

def put (tree : FileTree) (location : Location) (entry : Entry) : FileTree :=
  { tree with entries := (location, entry) :: tree.entries.filter (·.1 ≠ location) }

theorem entryAt?_put_self {tree : FileTree} {location : Location} {entry : Entry} (h : location ≠ []) :
    (tree.put location entry).entryAt? location = some entry := by
  simp [entryAt?, put, h]

theorem lookup_filter_ne {location other : Location} (h : other ≠ location) : ∀ entries : List (Location × Entry),
    (entries.filter (·.1 ≠ location)).lookup other = entries.lookup other
  | [] => rfl
  | (l, e) :: rest => by
    rw [List.filter_cons]
    by_cases hl : l = location
    · have hne : (other == l) = false := by simpa [hl] using h
      simp only [hl, ne_eq, not_true_eq_false, decide_false, Bool.false_eq_true, if_false, List.lookup_cons]
      rw [← hl, hne, hl]
      exact lookup_filter_ne h rest
    · simp only [ne_eq, hl, not_false_eq_true, decide_true, if_true, List.lookup_cons]
      rw [show rest.filter (fun x => decide ¬x.1 = location) = rest.filter (·.1 ≠ location) from rfl,
        lookup_filter_ne h rest]

theorem entryAt?_put_of_ne {tree : FileTree} {location other : Location} {entry : Entry} (h : other ≠ location) :
    (tree.put location entry).entryAt? other = tree.entryAt? other := by
  have hne : (other == location) = false := by simpa using h
  simp only [entryAt?, put, List.lookup_cons, hne, lookup_filter_ne h]

/-! ## Limits -/

def maxNameSize : Nat := 255

def maxPathSize : Nat := 4095

def nullCharacter : Char := Char.ofNat 0

/-- Whether a file system takes a text as a path at all. -/
def isSpellable (path : Text) : Bool := nullCharacter ∉ path && Text.byteSize path ≤ maxPathSize

/-! ## Finding a path -/

def step (location : Location) (piece : Text) : Location :=
  if piece = Path.stepUp then location.dropLast
  else if Path.isComponent piece then location ++ [piece]
  else location

/-- Follow the pieces of a path.  Every place that a piece is read at has to be a directory, and no piece may be
too long for a name; the place the last one leads to may be anything or nothing. -/
def follow (tree : FileTree) (location : Location) : List Text → Option Location
  | [] => some location
  | piece :: pieces =>
    if tree.entryAt? location = some .directory ∧ Text.byteSize piece ≤ maxNameSize then
      follow tree (step location piece) pieces
    else none

/-- The location that a path names, if the directories on the way exist.  The empty path names nothing. -/
def locate (tree : FileTree) (path : Text) : Option Location :=
  if path.isEmpty || !isSpellable path then none
  else follow tree (if path.head? = some '/' then [] else tree.working) (Text.split '/' path)

def at? (tree : FileTree) (path : Text) : Option Entry := (tree.locate path).bind tree.entryAt?

def exists? (tree : FileTree) (path : Text) : Bool := (tree.at? path).isSome

def isDirectory (tree : FileTree) (path : Text) : Bool := tree.at? path = some .directory

def isFile (tree : FileTree) (path : Text) : Bool :=
  match tree.at? path with
  | some (.file _) => true
  | _ => false

def read? (tree : FileTree) (path : Text) : Option Text :=
  match tree.at? path with
  | some (.file content) => some content
  | _ => none

/-! ## Creating directories -/

/-- Make sure that a path whose parent exists names a directory. -/
def ensureDirectory (tree : FileTree) (path : Text) : Option FileTree :=
  match tree.locate path with
  | none => none
  | some location =>
    match tree.entryAt? location with
    | some .directory => some tree
    | some (.file _) => none
    | none => some (tree.put location .directory)

/-- Make sure of each of some directories in turn, up to the first that fails.  The flag says whether none
did. -/
def ensureAll (tree : FileTree) : List Text → FileTree × Bool
  | [] => (tree, true)
  | path :: paths =>
    match tree.ensureDirectory path with
    | none => (tree, false)
    | some tree => ensureAll tree paths

def createDirectories (tree : FileTree) (path : Text) : FileTree × Bool :=
  if isSpellable path then tree.ensureAll (Path.directoriesTo path) else (tree, false)

/-! ## Writing files -/

inductive Overwrite
  | always
  | ifMissing
  deriving DecidableEq, Repr

structure WriteRules where
  overwrite : Overwrite := .always
  createParents : Bool := true
  deriving DecidableEq, Repr

def WriteRules.existingDirectory : WriteRules := { createParents := false }

inductive WriteError
  | createDirectory (directory : Text)
  | openFile (path : Text)
  | replaceFile (path : Text)
  deriving DecidableEq, Repr

def WriteError.message : WriteError → Text
  | .createDirectory directory => "failed to create '" ++ directory ++ "'"
  | .openFile path => "cannot open '" ++ path ++ "' for writing"
  | .replaceFile path => "failed to persist '" ++ path ++ "'"

inductive WriteResult
  | written
  | skipped
  deriving DecidableEq, Repr

def directoryOf (path : Text) : Text :=
  match Path.parent path with
  | some (c :: cs) => c :: cs
  | _ => "."

def freshNameSize : Nat := 10

def freshPath (tree : FileTree) (directory : Text) : Text :=
  Path.under (Path.under ("/" ++ Text.join "/" tree.working) directory) (List.replicate freshNameSize 'x')

/-- Move a complete file to its path.  It takes the place of a file, but not of a directory. -/
def replace (tree : FileTree) (path content : Text) : Except WriteError WriteResult × FileTree :=
  match tree.locate path with
  | none => (.error (.replaceFile path), tree)
  | some location =>
    if tree.entryAt? location = some .directory then (.error (.replaceFile path), tree)
    else (.ok .written, tree.put location (.file content))

/-- Open a fresh file in the directory of a path, fill it, and move it to the path.  Only the first and the last of these
steps can fail here; where they do, the fresh file is gone again, so a failed write is the tree as it was. -/
def writeInto (tree : FileTree) (path content : Text) : Except WriteError WriteResult × FileTree :=
  if tree.isDirectory (directoryOf path) && isSpellable (tree.freshPath (directoryOf path)) then
    tree.replace path content
  else (.error (.openFile path), tree)

def writeThrough (tree : FileTree) (createParents : Bool) (path content : Text) :
    Except WriteError WriteResult × FileTree :=
  if createParents then
    match tree.createDirectories (directoryOf path) with
    | (tree, true) => tree.writeInto path content
    | (tree, false) => (.error (.createDirectory (directoryOf path)), tree)
  else tree.writeInto path content

def write (tree : FileTree) (rules : WriteRules) (path content : Text) :
    Except WriteError WriteResult × FileTree :=
  match rules.overwrite with
  | .always => tree.writeThrough rules.createParents path content
  | .ifMissing =>
    if tree.exists? path then (.ok .skipped, tree)
    else tree.writeThrough rules.createParents path content

end FileTree
end IdeExport
