import IdeExport.Proofs.Path.Parts
import IdeExport.Proofs.Sources.Headers
/-!
# The search for headers as a whole

What is listed after the search for headers is what was listed before together with the first header of each paired file
that has one, whatever the order of the searches (`otherAfter_eq`).  What a search finds is that header, so it is the
same for paired files with one directory and base name (`firstHeader_congr`).  The first headers stay the same when they
are listed, so another search finds nothing (`foundHeaders_eq_nil`).
-/
namespace IdeExport
namespace Sources

variable {s : Sources} {extensions : List Text} {probe : Text → Bool} {header file : Text}

/-! ## Closed form -/

theorem sorted_otherAfter (h : s.Sorted) (extensions : List Text) (probe : Text → Bool) (paths : List Text) :
    (s.otherAfter extensions probe paths).Pairwise (· < ·) :=
  pairwise_foldl_insert _ h.other

theorem otherAfter_eq (h : s.Sorted) (extensions : List Text) (probe : Text → Bool) (paths : List Text) :
    s.otherAfter extensions probe paths =
      SortedList.ofList (s.other ++ paths.filterMap (firstHeader extensions s.other probe)) := by
  refine SortedList.eq_of_mem_iff (sorted_otherAfter h extensions probe paths) (SortedList.pairwise_ofList _) ?_
  intro path
  rw [mem_otherAfter, SortedList.mem_ofList, List.mem_append, List.mem_filterMap]

theorem otherAfter_perm (h : s.Sorted) {paths others : List Text} (hperm : paths.Perm others) :
    s.otherAfter extensions probe paths = s.otherAfter extensions probe others := by
  refine SortedList.eq_of_mem_iff (sorted_otherAfter h ..) (sorted_otherAfter h ..) (fun path => ?_)
  simp only [mem_otherAfter, hperm.mem_iff]

/-! ## Searching again -/

/-- A header that was found exists, so it ends no search that it did not end before. -/
theorem firstHeader_discoverHeaders (s : Sources) (extensions : List Text) (probe : Text → Bool) (path : Text) :
    firstHeader extensions (s.discoverHeaders extensions probe).other probe path =
      firstHeader extensions s.other probe path := by
  refine find?_listed_congr (fun c hprobe => ?_) _
  have hlisted : c ∈ (s.discoverHeaders extensions probe).other ↔ c ∈ s.other := by
    rw [mem_other_discoverHeaders_iff]
    refine or_iff_left_of_imp (fun ⟨file, _, hfirst⟩ => ?_)
    by_cases hother : c ∈ s.other
    · exact hother
    · rw [probe_of_firstHeader hother hfirst] at hprobe
      cases hprobe
  simp only [List.contains_eq_mem, hlisted]

theorem foundHeaders_eq_nil (s : Sources) (extensions : List Text) (probe : Text → Bool) :
    (s.discoverHeaders extensions probe).foundHeaders extensions probe = [] := by
  refine List.eq_nil_iff_forall_not_mem.2 (fun header hmem => ?_)
  obtain ⟨hnew, file, hfile, hfirst⟩ := mem_foundHeaders_iff.1 hmem
  rw [firstHeader_discoverHeaders] at hfirst
  exact hnew (mem_other_discoverHeaders_iff.2 (Or.inr ⟨file, hfile, hfirst⟩))

theorem discoverHeaders_discoverHeaders (s : Sources) (extensions : List Text) (probe : Text → Bool) :
    (s.discoverHeaders extensions probe).discoverHeaders extensions probe = s.discoverHeaders extensions probe := by
  have hnone := foundHeaders_eq_nil s extensions probe
  rw [foundHeaders] at hnone
  rw [discoverHeaders, hnone]
  rfl

/-! ## The file that a header is added for -/

def IsAddedFor (s : Sources) (extensions : List Text) (probe : Text → Bool) (header file : Text) : Prop :=
  ∃ search, (file, search) ∈ (s.paired.map (·.1)).zip (s.headerSearches extensions probe) ∧ search.found = some header

theorem length_searchHeaders (extensions other : List Text) (probe : Text → Bool) : ∀ (paths found : List Text),
    (searchHeaders extensions other probe found paths).length = paths.length
  | [], _ => rfl
  | path :: paths, found => by
    rw [searchHeaders, List.length_cons, length_searchHeaders extensions other probe paths, List.length_cons]

/-- What one of several searches has found is new, and it is the first header of its file. -/
theorem firstHeader_of_mem_zip {search : HeaderSearch} (extensions other : List Text)
    (hsearch : search.found = some header) : ∀ (paths : List Text) {found : List Text},
      (∀ header ∈ found, probe header = true) →
      (file, search) ∈ paths.zip (searchHeaders extensions other probe found paths) →
      header ∉ other ∧ firstHeader extensions other probe file = some header
  | [], _, _, hmem => absurd hmem List.not_mem_nil
  | path :: paths, found, hfound, hmem => by
    rw [searchHeaders, List.zip_cons_cons] at hmem
    rcases List.mem_cons.1 hmem with heq | hmem
    -- the search sees what was found before, all of which exists
    · obtain ⟨rfl, rfl⟩ := Prod.mk.inj heq
      rw [found_searchHeader_firstHeader extensions other hfound, Option.filter_eq_some_iff] at hsearch
      obtain ⟨hfirst, hnew⟩ := hsearch
      simp only [Bool.not_eq_true', Bool.or_eq_false_iff, List.contains_eq_mem, decide_eq_false_iff_not] at hnew
      exact ⟨hnew.1, hfirst⟩
    · exact firstHeader_of_mem_zip extensions other hsearch paths
        (probe_of_mem_append_found extensions other hfound path) hmem

theorem IsAddedFor.firstHeader_eq (h : s.IsAddedFor extensions probe header file) :
    header ∉ s.other ∧ firstHeader extensions s.other probe file = some header := by
  obtain ⟨search, hmem, hsearch⟩ := h
  exact firstHeader_of_mem_zip extensions s.other hsearch _ (fun _ h => absurd h List.not_mem_nil) hmem

/-- Every header that is added is added for some file, and what is added for a file was not listed before. -/
theorem exists_isAddedFor_iff : (∃ file, s.IsAddedFor extensions probe header file) ↔
    header ∈ (s.discoverHeaders extensions probe).other ∧ header ∉ s.other := by
  have hfound : (∃ file, s.IsAddedFor extensions probe header file) ↔ header ∈ s.foundHeaders extensions probe := by
    have hlength : (s.headerSearches extensions probe).length ≤ (s.paired.map (·.1)).length :=
      Nat.le_of_eq (length_searchHeaders extensions s.other probe _ [])
    rw [foundHeaders, List.mem_filterMap, ← List.map_snd_zip hlength]
    simp only [IsAddedFor, List.mem_map, Prod.exists, exists_eq_right]
    constructor
    · rintro ⟨file, search, hmem, hsearch⟩
      exact ⟨search, ⟨file, hmem⟩, hsearch⟩
    · rintro ⟨search, ⟨file, hmem⟩, hsearch⟩
      exact ⟨file, search, hmem, hsearch⟩
  rw [hfound, mem_other_discoverHeaders, and_comm, and_or_left]
  constructor
  · intro hmem
    exact Or.inr ⟨(mem_foundHeaders_iff.1 hmem).1, hmem⟩
  · rintro (⟨hnew, hother⟩ | ⟨-, hmem⟩)
    · exact absurd hother hnew
    · exact hmem

theorem firstHeader_congr {file other : Text} {listed : List Text}
    (hdirectory : Path.parentDirectory file = Path.parentDirectory other)
    (hname : Path.baseName file = Path.baseName other) :
    firstHeader extensions listed probe file = firstHeader extensions listed probe other := by
  simp only [firstHeader, headerCandidates, headerStem, hdirectory, hname]

theorem beside_of_mem_headerCandidates (hplain : ∀ extension ∈ extensions, '/' ∉ extension)
    (h : header ∈ headerCandidates extensions file) :
    Path.parentDirectory header = Path.parentDirectory file ∧ Path.baseName header = Path.baseName file := by
  obtain ⟨extension, hextension, rfl⟩ := List.mem_map.1 h
  have hslash : '/' ∉ Path.baseName file ++ '.' :: extension := by
    simp [Path.slash_not_mem_baseName, hplain extension hextension]
  cases hdirectory : Path.parentDirectory file with
  | none =>
    have hheader : headerStem file ++ ['.'] ++ extension = Path.baseName file ++ '.' :: extension := by
      simp [headerStem, hdirectory]
    rw [hheader]
    exact ⟨Path.parentDirectory_of_not_mem hslash, Path.baseName_eq_of_lastName (Path.lastName_of_not_mem hslash)⟩
  | some directory =>
    have hheader : headerStem file ++ ['.'] ++ extension =
        directory ++ '/' :: (Path.baseName file ++ '.' :: extension) := by
      simp [headerStem, hdirectory]
    rw [hheader]
    exact ⟨Path.parentDirectory_append directory hslash,
      Path.baseName_eq_of_lastName (Path.lastName_append directory hslash)⟩

/-! ## The search as a whole -/

/-- **The search for headers in closed form.**  The paired files stay, and the other files are those that were listed
and the first header of each paired file, whatever the order of the searches.  So there is at most one new header for
each directory and base name, every new header exists, and searching again changes nothing; and a new header stands
beside its file and has its base name, unless an extension holds a slash. -/
theorem discoverHeaders_closedForm (s : Sources) (h : s.Sorted) (extensions : List Text) (probe : Text → Bool) :
    (s.discoverHeaders extensions probe).paired = s.paired ∧
    (s.discoverHeaders extensions probe).other =
      SortedList.ofList (s.other ++ (s.paired.map (·.1)).filterMap (firstHeader extensions s.other probe)) ∧
    (∀ paths, paths.Perm (s.paired.map (·.1)) →
      s.otherAfter extensions probe paths = (s.discoverHeaders extensions probe).other) ∧
    (∀ header, header ∈ (s.discoverHeaders extensions probe).other ∧ header ∉ s.other ↔
      ∃ file, s.IsAddedFor extensions probe header file) ∧
    (∀ header file, s.IsAddedFor extensions probe header file →
      probe header = true ∧
      (∀ header' file', s.IsAddedFor extensions probe header' file' →
        Path.parentDirectory file' = Path.parentDirectory file → Path.baseName file' = Path.baseName file →
        header' = header) ∧
      ((∀ extension ∈ extensions, '/' ∉ extension) →
        Path.parentDirectory header = Path.parentDirectory file ∧ Path.baseName header = Path.baseName file)) ∧
    (s.discoverHeaders extensions probe).discoverHeaders extensions probe = s.discoverHeaders extensions probe := by
  refine ⟨rfl, otherAfter_eq h extensions probe _, fun paths hpaths => otherAfter_perm h hpaths,
    fun header => exists_isAddedFor_iff.symm, fun header file hadded => ?_, discoverHeaders_discoverHeaders s _ _⟩
  obtain ⟨hnew, hfirst⟩ := hadded.firstHeader_eq
  refine ⟨probe_of_firstHeader hnew hfirst, fun header' file' hadded' hdirectory hname => ?_, fun hplain => ?_⟩
  · have hfirst' := hadded'.firstHeader_eq.2
    rw [firstHeader_congr hdirectory hname, hfirst] at hfirst'
    exact (Option.some.inj hfirst').symm
  · exact beside_of_mem_headerCandidates hplain (List.mem_of_find?_eq_some hfirst)

/-- Three files that share a base name, a file whose header is listed, and a file in no directory. -/
def relatedSources : Sources where
  paired :=
    [("/s/a.c", ["app"]), ("/s/a.cpp", ["app"]), ("/s/a.moc.cpp", ["app"]), ("/s/b.c", ["app"]), ("c.c", ["app"])]
  other := ["/s/b.hh"]

def existingHeaders : List Text := ["/s/a.hpp", "/s/b.hpp", "c.h"]

theorem discoverHeaders_closedForm_relatedSources :
    relatedSources.Sorted ∧
    (relatedSources.discoverHeaders ["h", "hh", "hpp"] existingHeaders.contains).other =
      (["/s/a.hpp", "/s/b.hh", "c.h"] : List Text) := by
  have hsorted : relatedSources.Sorted := ⟨by decide, by decide⟩
  have hclosed := discoverHeaders_closedForm relatedSources hsorted ["h", "hh", "hpp"] existingHeaders.contains
  exact ⟨hsorted, hclosed.2.1.trans (by decide)⟩

end Sources
end IdeExport
