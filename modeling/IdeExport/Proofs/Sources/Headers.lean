import IdeExport.Proofs.Sources.Classification
/-!
# What the search for headers finds

The files are searched for one after another, and each search sees what the ones before it found.  The outcome does not
depend on that: a header that was found exists, so a later search ends at it anyway.  What is listed in the end can be
told for each file by itself, by the first of its candidates that is listed or exists (`mem_other_discoverHeaders_iff`).
-/
namespace IdeExport
namespace Sources

variable {extensions other : List Text} {probe : Text → Bool}

/-- The first header that a file may have and that is listed or exists. -/
def firstHeader (extensions other : List Text) (probe : Text → Bool) (path : Text) : Option Text :=
  (headerCandidates extensions path).find? (fun candidate => other.contains candidate || probe candidate)

/-- A search ends at the first candidate that is listed or exists, and has found it if it is not listed. -/
theorem found_searchHeader (listed probe : Text → Bool) : ∀ candidates : List Text,
    (searchHeader listed probe candidates).found =
      (candidates.find? (fun c => listed c || probe c)).filter (fun c => !listed c)
  | [] => rfl
  | candidate :: candidates => by
    rw [searchHeader, List.find?_cons]
    cases hlisted : listed candidate with
    | true => simp [Option.filter, hlisted]
    | false =>
      cases hprobe : probe candidate with
      | true => simp [Option.filter, hlisted]
      | false => simpa using found_searchHeader listed probe candidates

/-- Where a search ends depends on what is listed only as far as it does not exist. -/
theorem find?_listed_congr {listed others : Text → Bool} (h : ∀ c, probe c = false → listed c = others c)
    (candidates : List Text) :
    candidates.find? (fun c => listed c || probe c) = candidates.find? (fun c => others c || probe c) := by
  have hsame : (fun c => listed c || probe c) = fun c => others c || probe c := by
    funext c
    cases hprobe : probe c with
    | true => simp
    | false => simp [h c hprobe]
  rw [hsame]

/-- A search that sees what others have found ends at the first header, and has found it if it is new. -/
theorem found_searchHeader_firstHeader (extensions other : List Text) {found : List Text}
    (hfound : ∀ header ∈ found, probe header = true) (path : Text) :
    (searchHeader (fun c => other.contains c || found.contains c) probe (headerCandidates extensions path)).found =
      (firstHeader extensions other probe path).filter (fun c => !(other.contains c || found.contains c)) := by
  have hnew : ∀ c, probe c = false → (other.contains c || found.contains c) = other.contains c := by
    intro c hprobe
    have hc : c ∉ found := fun hmem => by simp [hfound c hmem] at hprobe
    simp [hc]
  rw [found_searchHeader, find?_listed_congr hnew, firstHeader]

theorem mem_append_found (extensions other : List Text) {found : List Text}
    (hfound : ∀ header ∈ found, probe header = true) (path header : Text) :
    header ∈ found ++ (searchHeader (fun c => other.contains c || found.contains c) probe
        (headerCandidates extensions path)).found.toList ↔
      header ∈ found ∨ (header ∉ other ∧ firstHeader extensions other probe path = some header) := by
  rw [found_searchHeader_firstHeader extensions other hfound, List.mem_append, Option.mem_toList,
    Option.filter_eq_some_iff]
  simp only [Bool.not_eq_true', Bool.or_eq_false_iff, List.contains_eq_mem, decide_eq_false_iff_not]
  constructor
  · rintro (hmem | ⟨hfirst, hother, -⟩)
    · exact Or.inl hmem
    · exact Or.inr ⟨hother, hfirst⟩
  · rintro (hmem | ⟨hother, hfirst⟩)
    · exact Or.inl hmem
    · by_cases hmem : header ∈ found
      · exact Or.inl hmem
      · exact Or.inr ⟨hfirst, hother, hmem⟩

/-- A header that a search ends at is listed or exists. -/
theorem probe_of_firstHeader {path header : Text} (hother : header ∉ other)
    (hfirst : firstHeader extensions other probe path = some header) : probe header = true := by
  have hlisted := List.find?_some hfirst
  simpa [hother] using hlisted

/-- Everything that was found exists, after one more search too. -/
theorem probe_of_mem_append_found (extensions other : List Text) {found : List Text}
    (hfound : ∀ header ∈ found, probe header = true) (path : Text) :
    ∀ header ∈ found ++ (searchHeader (fun c => other.contains c || found.contains c) probe
        (headerCandidates extensions path)).found.toList, probe header = true := by
  intro header hmem
  rcases (mem_append_found extensions other hfound path header).1 hmem with hmem | ⟨hother, hfirst⟩
  · exact hfound header hmem
  · exact probe_of_firstHeader hother hfirst

/-- **What some searches find**, after others that have found files which exist. -/
theorem mem_found_searchHeaders (extensions other : List Text) (header : Text) :
    ∀ (paths : List Text) {found : List Text},
    (∀ header ∈ found, probe header = true) →
    (header ∈ found ++ (searchHeaders extensions other probe found paths).filterMap (·.found) ↔
      header ∈ found ∨ (header ∉ other ∧ ∃ path ∈ paths, firstHeader extensions other probe path = some header))
  | [], found, _ => by simp [searchHeaders]
  | path :: paths, found, hfound => by
    have hstep := mem_append_found extensions other hfound path
    -- the invariant of the recursion: everything that was found exists
    have hnext := probe_of_mem_append_found extensions other hfound path
    generalize hsearch : searchHeader (fun c => other.contains c || found.contains c) probe
      (headerCandidates extensions path) = search at hstep hnext
    have hlist : found ++ (searchHeaders extensions other probe found (path :: paths)).filterMap (·.found)
        = (found ++ search.found.toList) ++
          (searchHeaders extensions other probe (found ++ search.found.toList) paths).filterMap (·.found) := by
      rw [searchHeaders, hsearch, List.append_assoc]
      cases hsome : search.found with
      | none => simp [hsome]
      | some h => simp [hsome]
    rw [hlist, mem_found_searchHeaders extensions other header paths hnext, hstep header]
    simp only [List.mem_cons, or_and_right, exists_or, exists_eq_left]
    rw [or_assoc, ← and_or_left]

/-- What searches find from nothing on. -/
theorem mem_filterMap_searchHeaders {other paths : List Text} {header : Text} :
    header ∈ (searchHeaders extensions other probe [] paths).filterMap (·.found) ↔
      header ∉ other ∧ ∃ path ∈ paths, firstHeader extensions other probe path = some header := by
  have hnone : ∀ header ∈ [], probe header = true := fun _ hmem => absurd hmem List.not_mem_nil
  have hsearches := mem_found_searchHeaders extensions other header paths hnone
  simpa using hsearches

theorem mem_foundHeaders_iff {s : Sources} {header : Text} : header ∈ s.foundHeaders extensions probe ↔
    header ∉ s.other ∧ ∃ file ∈ s.paired.map (·.1), firstHeader extensions s.other probe file = some header :=
  mem_filterMap_searchHeaders

/-- The other files after searches for the headers of some files, in the order given. -/
def otherAfter (s : Sources) (extensions : List Text) (probe : Text → Bool) (paths : List Text) : List Text :=
  ((searchHeaders extensions s.other probe [] paths).filterMap (·.found)).foldl
    (fun other header => SortedList.insert header other) s.other

theorem mem_otherAfter {s : Sources} {paths : List Text} {path : Text} :
    path ∈ s.otherAfter extensions probe paths ↔
      path ∈ s.other ∨ ∃ file ∈ paths, firstHeader extensions s.other probe file = some path := by
  rw [otherAfter, mem_foldl_insert, mem_filterMap_searchHeaders]
  by_cases hother : path ∈ s.other
  · simp [hother]
  · simp [hother]

/-- **A file is listed after the search for headers** exactly when it was listed before or is the first header of a
paired file. -/
theorem mem_other_discoverHeaders_iff {s : Sources} {path : Text} :
    path ∈ (s.discoverHeaders extensions probe).other ↔
      path ∈ s.other ∨ ∃ file ∈ s.paired.map (·.1), firstHeader extensions s.other probe file = some path :=
  mem_otherAfter

end Sources
end IdeExport
