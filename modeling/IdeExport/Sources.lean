import IdeExport.Graph.Project
import IdeExport.SortedList
/-!
# Sources

The files that a descriptor lists for its targets.  A C or C++ file with a known extension is paired with the
targets that own it; every other file is listed without owners, and so are the headers found beside paired
files.  Both collections are sorted by path.
-/
namespace IdeExport

structure Sources where
  /-- Each paired file with the names of its targets, in the order in which they list it. -/
  paired : List (Text × List Text) := []
  other : List Text := []
  deriving DecidableEq, Repr

namespace Sources

def isEmpty (s : Sources) : Bool := s.paired.isEmpty && s.other.isEmpty

/-! ## Classification -/

def isPaired (extensions : List Text) (source : SourceFile) : Bool :=
  source.language.any Language.isCFamily && source.extension.any (extensions.contains ·)

/-- A further owner for a file that may have some already. -/
def addOwner (owner : Text) (owners : Option (List Text)) : List Text :=
  let owners := owners.getD []
  if owners.contains owner then owners else owners ++ [owner]

def add (extensions : List Text) (s : Sources) (owner : Text) (source : SourceFile) : Sources :=
  if isPaired extensions source then
    { s with paired := SortedList.alter source.path (addOwner owner) s.paired }
  else { s with other := SortedList.insert source.path s.other }

/-- The sources that some targets list, each with the name of its target.  Generated files and the sources of
targets that are nothing but names are left out. -/
def listings (targets : List Target) : List (Text × SourceFile) :=
  (targets.filter (·.kind.hasSources)).flatMap
    (fun target => (target.sources.filter (!·.generated)).map (target.name, ·))

def classify (extensions : List Text) (targets : List Target) : Sources :=
  (listings targets).foldl (fun s listing => s.add extensions listing.1 listing.2) {}

/-! ## Headers -/

/-- The path of a file up to the first dot of its name. -/
def headerStem (path : Text) : Text :=
  match Path.parentDirectory path with
  | some directory => directory ++ "/" ++ Path.baseName path
  | none => Path.baseName path

def headerCandidates (extensions : List Text) (path : Text) : List Text :=
  extensions.map (fun extension => headerStem path ++ ['.'] ++ extension)

/-- The outcome of a search: the header it found, and every path it had to ask about. -/
structure HeaderSearch where
  found : Option Text
  asked : List Text
  deriving DecidableEq, Repr

/-- Look for a header among candidates.  A candidate that is listed already ends the search. -/
def searchHeader (listed probe : Text → Bool) : List Text → HeaderSearch
  | [] => ⟨none, []⟩
  | candidate :: candidates =>
    if listed candidate then ⟨none, []⟩
    else if probe candidate then ⟨some candidate, [candidate]⟩
    else
      let rest := searchHeader listed probe candidates
      ⟨rest.found, candidate :: rest.asked⟩

/-- The searches for some files, one after another; a header that one of them found is listed for the next. -/
def searchHeaders (extensions other : List Text) (probe : Text → Bool) (found : List Text) :
    List Text → List HeaderSearch
  | [] => []
  | path :: paths =>
    let search := searchHeader (fun c => other.contains c || found.contains c) probe (headerCandidates extensions path)
    search :: searchHeaders extensions other probe (found ++ search.found.toList) paths

def headerSearches (s : Sources) (extensions : List Text) (probe : Text → Bool) : List HeaderSearch :=
  searchHeaders extensions s.other probe [] (s.paired.map (·.1))

def discoverHeaders (s : Sources) (extensions : List Text) (probe : Text → Bool) : Sources :=
  let headers := (s.headerSearches extensions probe).filterMap (·.found)
  { s with other := headers.foldl (fun other header => SortedList.insert header other) s.other }

end Sources
end IdeExport
