import IdeExport.Path.Lexical
/-!
# Paths of a file system

How a file system reads a path: repeated slashes and single dots between names mean nothing, so the parent of
a path skips them, while the text in front of it stays as it was written.
-/
namespace IdeExport
namespace Path

inductive Start
  | root
  | dot
  | name
  deriving DecidableEq, Repr

/-- The start of a path and the pieces after it.  `./a` starts at a dot, which counts as a component there and
nowhere else. -/
def startAndPieces (path : Text) : Start × List Text :=
  match Text.split '/' path with
  | [] :: pieces => if pieces.isEmpty then (.name, []) else (.root, pieces)
  | ['.'] :: pieces => (.dot, pieces)
  | pieces => (.name, pieces)

def ofPieces : Start → List Text → Text
  | .root, pieces => "/" ++ Text.join "/" pieces
  | .dot, [] => "."
  | .dot, pieces => "./" ++ Text.join "/" pieces
  | .name, pieces => Text.join "/" pieces

/-- The pieces without those at the end that name nothing. -/
def dropTrailing (pieces : List Text) : List Text := (pieces.reverse.dropWhile (!isComponent ·)).reverse

/-- The directory that holds what a path names.  The root and the empty path have none. -/
def parent (path : Text) : Option Text :=
  let (start, pieces) := startAndPieces path
  match dropTrailing pieces, start with
  | [], .dot => some []
  | [], _ => none
  | named, start => some (ofPieces start (dropTrailing named.dropLast))

/-- The name at the end of a path, unless that is a step up. -/
def fileName (path : Text) : Option Text :=
  match (dropTrailing (startAndPieces path).2).getLast? with
  | some name => if name = stepUp then none else some name
  | none => none

def extension (path : Text) : Option Text := (fileName path).bind nameExtension

/-- The non-empty prefixes of a list of pieces that end in a component, each with what came before it. -/
def prefixesFrom (before : List Text) : List Text → List (List Text)
  | [] => []
  | piece :: pieces =>
    let through := before ++ [piece]
    if isComponent piece then through :: prefixesFrom through pieces else prefixesFrom through pieces

/-- The directories on the way to a path, from the outermost one to the path itself. -/
def directoriesTo (path : Text) : List Text :=
  let (start, pieces) := startAndPieces path
  (prefixesFrom [] pieces).map (ofPieces start)

end Path
end IdeExport
