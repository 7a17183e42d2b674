import IdeExport.CommandLine.Places
import IdeExport.CommandLine.Run
/-!
# The program

The places of the disk that a run can depend on are copied into a file tree, the run is computed on the tree,
and what it changes there is carried out on the disk.
-/
namespace IdeExport
namespace Disk

def pathOf (location : Location) : String := "/" ++ "/".intercalate (location.map String.ofList)

def succeeds {α : Type} (action : IO α) : IO Bool := do
  try
    discard action
    return true
  catch _ => return false

/-! ## From the disk -/

def entryAt (location : Location) : IO (Option Entry) := do
  if ← succeeds (IO.FS.realPath (pathOf location ++ "/.")) then return some .directory
  else if ← succeeds (IO.FS.realPath (pathOf location)) then return some (.file [])
  else return none

/-- Copy what is at a location, unless the tree has something there. -/
def copyEntry (tree : FileTree) (location : Location) : IO FileTree := do
  if (tree.entryAt? location).isSome then return tree
  match ← entryAt location with
  | some entry => return tree.put location entry
  | none => return tree

def copyTrail (tree : FileTree) (path : Text) : IO FileTree :=
  (FileTree.trail tree.working path).foldlM copyEntry tree

def copyFile (tree : FileTree) (path : Text) : IO FileTree := do
  let tree ← (FileTree.trail tree.working path).dropLast.foldlM copyEntry tree
  match tree.locate path with
  | none => return tree
  | some location =>
    try
      let content ← IO.FS.readFile (pathOf location)
      return tree.put location (.file content.toList)
    catch _ => return tree

/-- The part of the disk that a run with these arguments can depend on. -/
def copyFor (args : List Text) : IO FileTree := do
  let tree : FileTree := { working := Path.components (toString (← IO.currentDir)).toList }
  match (CommandLine.Command.read args).bind (·.snapshotPath?) with
  | none => return tree
  | some path =>
    let tree ← copyFile tree path
    match Snapshot.openFile tree.read? path with
    | .error _ => return tree
    | .ok s => (CommandLine.snapshotPaths s).foldlM copyTrail tree

/-! ## To the disk -/

def freshLocation (directory : Location) : IO Location := do
  let location (n : Nat) : Location := directory ++ [".new" ++ Text.ofNat n]
  let isFree (n : Nat) : IO Bool := return !(← succeeds (IO.FS.realPath (pathOf (location n))))
  return location ((← (List.range 1000).findM? isFree).getD 1000)

/-- Carry out a change.  A file is written beside its place and moved there when it is complete. -/
def carryOut (change : Location × Entry) : IO Unit := do
  let path := pathOf change.1
  match change.2 with
  | .directory => IO.FS.createDir path
  | .file content =>
    let unfinished := pathOf (← freshLocation change.1.dropLast)
    IO.FS.writeFile unfinished (String.ofList content)
    IO.FS.rename unfinished path

end Disk

def program (args : List String) : IO UInt32 := do
  let args := args.map String.toList
  let before ← Disk.copyFor args
  let (result, after) := CommandLine.run before args
  (before.changes after).forM Disk.carryOut
  IO.print (String.ofList result.output)
  IO.eprint (String.ofList result.problems)
  return result.exitCode.toUInt32

end IdeExport

def main (args : List String) : IO UInt32 := IdeExport.program args
