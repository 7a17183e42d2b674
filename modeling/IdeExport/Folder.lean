import IdeExport.Text.Basic
/-!
# Virtual folders

A descriptor groups files into folders of its own, which need not be directories.  A folder holds files and
folders in the order in which they came; below one top folder the rest is a tree that grows one file at a
time.
-/
namespace IdeExport

structure Folder where
  label : Text
  files : List Text := []
  folders : List Folder := []
  deriving Repr

structure FolderEntry where
  path : Text
  folder : Text
  deriving DecidableEq, Repr

namespace Folder

def empty : Folder := { label := [] }

def isEmpty (f : Folder) : Bool := f.folders.isEmpty && f.files.isEmpty

/-! ## Growing -/

/-- Change the first folder of a label, which is put at the end when there is none. -/
def changeFirst (label : Text) (change : Folder → Folder) : List Folder → List Folder
  | [] => [change { label }]
  | f :: fs => if f.label = label then change f :: fs else f :: changeFirst label change fs

def insert : List Text → Text → Folder → Folder
  | [], file, f => { f with files := f.files ++ [file] }
  | label :: labels, file, f => { f with folders := changeFirst label (insert labels file) f.folders }

/-- The folders that grow from some insertions, each the labels and the file. -/
def ofInsertions (insertions : List (List Text × Text)) : Folder :=
  insertions.foldl (fun f insertion => insert insertion.1 insertion.2 f) empty

/-! ## Listing -/

def topName : Text := "CMake Files"

mutual

/-- The paths of the folders below one whose own path, with a backslash behind it, is `before`. -/
def pathsBelow (before : Text) : Folder → List Text
  | ⟨_, _, folders⟩ => pathsOf before folders

def pathsOf (before : Text) : List Folder → List Text
  | [] => []
  | ⟨label, files, folders⟩ :: rest =>
    (before ++ label) :: (pathsBelow (before ++ label ++ "\\") ⟨label, files, folders⟩ ++ pathsOf before rest)

end

/-- The path of every folder below the top one, each before those inside it. -/
def paths (f : Folder) : List Text := f.pathsBelow []

def displayPath (path : Text) : Text := topName ++ "\\" ++ path

/-- The folders as a descriptor declares them: the top folder and then every other, each with a semicolon
behind it. -/
def declaration (f : Folder) : Text :=
  topName ++ "\\;" ++ Text.terminated "\\;" (f.paths.map displayPath)

mutual

def entriesBelow (folder directory : Text) : Folder → List FolderEntry
  | ⟨_, files, folders⟩ =>
    files.map (fun file => ⟨directory ++ file, displayPath folder⟩) ++ entriesOf folder directory folders

def entriesOf (folder directory : Text) : List Folder → List FolderEntry
  | [] => []
  | ⟨label, files, folders⟩ :: rest =>
    entriesBelow (folder ++ label ++ "\\") (directory ++ label ++ "/") ⟨label, files, folders⟩
      ++ entriesOf folder directory rest

end

/-- Every file with its folder.  The labels that lead to a file are also the directories that lead to it from
`directory`. -/
def entries (f : Folder) (directory : Text) : List FolderEntry := f.entriesBelow [] directory

end Folder
end IdeExport
