import IdeExport.Proofs.FirstOccurrences
import IdeExport.Sources
/-!
# What classification lists

Sources are listed one after another.  Listing one keeps both collections sorted and touches only the entry of its
path, so after all of them both sets of paths are those that are listed (`mem_foldl_add`), and the owners of a paired
file are read off the listings of its path, in their order (`keepsFirst_owners_classify`).  Headers that are found
later join the other files and leave the order as it was.
-/
namespace IdeExport
namespace Sources

variable {extensions : List Text}

/-! ## Listings -/

theorem mem_listings {targets : List Target} {listing : Text × SourceFile} : listing ∈ listings targets ↔
    ∃ target ∈ targets, target.kind.hasSources = true ∧ listing.1 = target.name ∧
      listing.2 ∈ target.sources ∧ listing.2.generated = false := by
  simp only [listings, List.mem_flatMap, List.mem_filter, List.mem_map, Bool.not_eq_true']
  constructor
  · rintro ⟨target, ⟨htarget, hkind⟩, source, ⟨hsource, hgenerated⟩, rfl⟩
    exact ⟨target, htarget, hkind, rfl, hsource, hgenerated⟩
  · rintro ⟨target, htarget, hkind, hname, hsource, hgenerated⟩
    exact ⟨target, ⟨htarget, hkind⟩, listing.2, ⟨hsource, hgenerated⟩, Prod.ext hname.symm rfl⟩

/-- The targets that list a path as a file to pair, one for each listing. -/
def ownersIn (extensions : List Text) (path : Text) (ls : List (Text × SourceFile)) : List Text :=
  (ls.filter (fun listing => isPaired extensions listing.2 && listing.2.path = path)).map (·.1)

theorem mem_ownersIn {path owner : Text} {ls : List (Text × SourceFile)} : owner ∈ ownersIn extensions path ls ↔
    ∃ source, (owner, source) ∈ ls ∧ isPaired extensions source = true ∧ source.path = path := by
  simp only [ownersIn, List.mem_map, List.mem_filter, Bool.and_eq_true, decide_eq_true_eq]
  constructor
  · rintro ⟨⟨o, source⟩, ⟨hmem, hpaired, hpath⟩, rfl⟩
    exact ⟨source, hmem, hpaired, hpath⟩
  · rintro ⟨source, hmem, hpaired, hpath⟩
    exact ⟨(owner, source), ⟨hmem, hpaired, hpath⟩, rfl⟩

theorem ownersIn_append (extensions : List Text) (path : Text) (ls others : List (Text × SourceFile)) :
    ownersIn extensions path (ls ++ others) = ownersIn extensions path ls ++ ownersIn extensions path others := by
  simp only [ownersIn, List.filter_append, List.map_append]

/-! ## Order -/

/-- Both collections are strictly sorted by path. -/
structure Sorted (s : Sources) : Prop where
  paired : (s.paired.map (·.1)).Pairwise (· < ·)
  other : s.other.Pairwise (· < ·)

theorem sorted_add {s : Sources} (h : s.Sorted) (owner : Text) (source : SourceFile) :
    (s.add extensions owner source).Sorted := by
  unfold add
  split
  · exact ⟨SortedList.pairwise_keys_alter h.paired, h.other⟩
  · exact ⟨h.paired, SortedList.pairwise_insert h.other⟩

theorem sorted_foldl : ∀ (ls : List (Text × SourceFile)) {s : Sources}, s.Sorted →
    (ls.foldl (fun s listing => s.add extensions listing.1 listing.2) s).Sorted
  | [], _, h => h
  | listing :: ls, _, h => sorted_foldl ls (sorted_add h listing.1 listing.2)

theorem sorted_classify (extensions : List Text) (targets : List Target) : (classify extensions targets).Sorted :=
  sorted_foldl (listings targets) ⟨List.Pairwise.nil, List.Pairwise.nil⟩

/-! ## Paths -/

/-- Some target lists a path as a file to pair, or as one that is not. -/
def ListedAs (extensions : List Text) (paired : Bool) (ls : List (Text × SourceFile)) (path : Text) : Prop :=
  ∃ listing ∈ ls, isPaired extensions listing.2 = paired ∧ listing.2.path = path

theorem listedAs_cons {paired : Bool} {path : Text} {listing : Text × SourceFile} {ls : List (Text × SourceFile)} :
    ListedAs extensions paired (listing :: ls) path ↔
      (isPaired extensions listing.2 = paired ∧ listing.2.path = path) ∨ ListedAs extensions paired ls path := by
  simp only [ListedAs, List.mem_cons, or_and_right, exists_or, exists_eq_left]

/-- What listing one source does to the two sets of paths. -/
theorem mem_add (extensions : List Text) (s : Sources) (owner path : Text) (source : SourceFile) :
    (path ∈ (s.add extensions owner source).paired.map (·.1) ↔
      path ∈ s.paired.map (·.1) ∨ (isPaired extensions source = true ∧ source.path = path)) ∧
    (path ∈ (s.add extensions owner source).other ↔
      path ∈ s.other ∨ (isPaired extensions source = false ∧ source.path = path)) := by
  unfold add
  by_cases hpaired : isPaired extensions source = true
  · rw [if_pos hpaired]
    refine ⟨?_, by simp [hpaired]⟩
    rw [SortedList.mem_keys_alter, hpaired, or_comm]
    simp only [true_and, eq_comm]
  · rw [Bool.not_eq_true] at hpaired
    rw [if_neg (by simp [hpaired])]
    refine ⟨by simp [hpaired], ?_⟩
    rw [SortedList.mem_insert, hpaired, or_comm]
    simp only [true_and, eq_comm]

theorem mem_foldl_add (path : Text) : ∀ (ls : List (Text × SourceFile)) (s : Sources),
    (path ∈ (ls.foldl (fun s listing => s.add extensions listing.1 listing.2) s).paired.map (·.1) ↔
      path ∈ s.paired.map (·.1) ∨ ListedAs extensions true ls path) ∧
    (path ∈ (ls.foldl (fun s listing => s.add extensions listing.1 listing.2) s).other ↔
      path ∈ s.other ∨ ListedAs extensions false ls path)
  | [], s => by simp [ListedAs]
  | listing :: ls, s => by
    obtain ⟨hpaired, hother⟩ := mem_add extensions s listing.1 path listing.2
    obtain ⟨ihpaired, ihother⟩ := mem_foldl_add path ls (s.add extensions listing.1 listing.2)
    rw [List.foldl_cons, ihpaired, ihother, hpaired, hother, listedAs_cons, listedAs_cons, or_assoc, or_assoc]
    exact ⟨Iff.rfl, Iff.rfl⟩

theorem mem_paired_classify {targets : List Target} {path : Text} :
    path ∈ (classify extensions targets).paired.map (·.1) ↔ ListedAs extensions true (listings targets) path :=
  (mem_foldl_add path (listings targets) {}).1.trans (by simp)

theorem mem_other_classify {targets : List Target} {path : Text} :
    path ∈ (classify extensions targets).other ↔ ListedAs extensions false (listings targets) path :=
  (mem_foldl_add path (listings targets) {}).2.trans (by simp)

/-! ## Owners -/

def withOwner (owners : Option (List Text)) (owner : Text) : Option (List Text) := some (addOwner owner owners)

theorem lookup_paired_add {s : Sources} (h : s.Sorted) (owner path : Text) (source : SourceFile) :
    (s.add extensions owner source).paired.lookup path =
      (ownersIn extensions path [(owner, source)]).foldl withOwner (s.paired.lookup path) := by
  unfold add
  by_cases hpaired : isPaired extensions source = true
  · rw [if_pos hpaired]
    show (SortedList.alter source.path (addOwner owner) s.paired).lookup path = _
    rw [SortedList.lookup_alter h.paired]
    by_cases hpath : path = source.path
    · subst hpath
      simp [ownersIn, hpaired, withOwner]
    · have hne : source.path ≠ path := fun e => hpath e.symm
      simp [ownersIn, hpaired, hpath, hne]
  · rw [if_neg hpaired]
    simp [ownersIn, hpaired]

/-- **The owners of a path after some listings** come from the listings of that path, one after another. -/
theorem lookup_paired_foldl (path : Text) : ∀ (ls : List (Text × SourceFile)) {s : Sources}, s.Sorted →
    (ls.foldl (fun s listing => s.add extensions listing.1 listing.2) s).paired.lookup path =
      (ownersIn extensions path ls).foldl withOwner (s.paired.lookup path)
  | [], s, _ => rfl
  | listing :: ls, s, h => by
    rw [List.foldl_cons, lookup_paired_foldl path ls (sorted_add h listing.1 listing.2),
      lookup_paired_add h listing.1 path listing.2, ← List.foldl_append, ← ownersIn_append, List.singleton_append]

theorem getD_foldl_withOwner : ∀ (names : List Text) (owners : Option (List Text)),
    (names.foldl withOwner owners).getD [] = names.foldl addNew (owners.getD [])
  | [], _ => rfl
  | name :: names, owners => getD_foldl_withOwner names (withOwner owners name)

theorem lookup_paired_classify (extensions : List Text) (targets : List Target) (path : Text) :
    (classify extensions targets).paired.lookup path =
      (ownersIn extensions path (listings targets)).foldl withOwner none :=
  lookup_paired_foldl path (listings targets) ⟨List.Pairwise.nil, List.Pairwise.nil⟩

/-- **The owners of a paired file are the targets that list it as a file to pair**, in the order of their first
listings. -/
theorem keepsFirst_owners_classify {targets : List Target} {path : Text} {owners : List Text}
    (h : (path, owners) ∈ (classify extensions targets).paired) :
    KeepsFirst (ownersIn extensions path (listings targets)) owners := by
  have hlookup := SortedList.lookup_of_mem (sorted_classify extensions targets).paired h
  rw [lookup_paired_classify] at hlookup
  have hfoldl := getD_foldl_withOwner (ownersIn extensions path (listings targets)) none
  rw [hlookup, Option.getD_some, Option.getD_none] at hfoldl
  rw [hfoldl]
  exact keepsFirst_foldl keepsFirst_nil (ownersIn extensions path (listings targets))

theorem mem_owners_classify {targets : List Target} {path owner : Text} {owners : List Text}
    (h : (path, owners) ∈ (classify extensions targets).paired) :
    owner ∈ owners ↔ ∃ source, (owner, source) ∈ listings targets ∧ isPaired extensions source = true ∧
      source.path = path :=
  ((keepsFirst_owners_classify h).mem_iff owner).trans mem_ownersIn

/-! ## Headers -/

theorem pairwise_foldl_insert : ∀ (headers : List Text) {other : List Text}, other.Pairwise (· < ·) →
    (headers.foldl (fun other header => SortedList.insert header other) other).Pairwise (· < ·)
  | [], _, h => h
  | _ :: headers, _, h => pairwise_foldl_insert headers (SortedList.pairwise_insert h)

theorem mem_foldl_insert {path : Text} : ∀ (headers other : List Text),
    path ∈ headers.foldl (fun other header => SortedList.insert header other) other ↔ path ∈ other ∨ path ∈ headers
  | [], other => by simp
  | header :: headers, other => by
    rw [List.foldl_cons, mem_foldl_insert headers, SortedList.mem_insert, List.mem_cons, or_comm (a := path = header),
      or_assoc]

def foundHeaders (s : Sources) (headerExtensions : List Text) (probe : Text → Bool) : List Text :=
  (s.headerSearches headerExtensions probe).filterMap (·.found)

theorem mem_other_discoverHeaders {s : Sources} {headerExtensions : List Text} {probe : Text → Bool} {path : Text} :
    path ∈ (s.discoverHeaders headerExtensions probe).other ↔
      path ∈ s.other ∨ path ∈ s.foundHeaders headerExtensions probe :=
  mem_foldl_insert _ _

theorem sorted_discoverHeaders {s : Sources} (h : s.Sorted) (headerExtensions : List Text) (probe : Text → Bool) :
    (s.discoverHeaders headerExtensions probe).Sorted :=
  ⟨h.paired, pairwise_foldl_insert _ h.other⟩

end Sources
end IdeExport
