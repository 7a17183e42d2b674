import IdeExport.Proofs.Sources.Classification
import Mathlib.Data.List.Forall2
/-!
# What classification makes of the sources of targets

Every source that an executable, a library or a utility lists, and that the build does not write itself, becomes a
paired file or another file, and nothing else does.  The owners of a paired file are the targets that list it, each
where it does so first; another order of the targets or of their sources changes the order of owners and nothing else
(`classify_partition`).
-/
namespace IdeExport

/-! ## Sources that count -/

/-- An executable, a library or a utility has the file among its sources, and the build does not write it. -/
def Target.Lists (target : Target) (source : SourceFile) : Prop :=
  target.kind ≠ .other ∧ source ∈ target.sources ∧ source.generated = false

def SourceFile.IsCompiled (extensions : List Text) (source : SourceFile) : Prop :=
  (source.language = some .c ∨ source.language = some .cxx) ∧
    ∃ extension ∈ extensions, Path.fileExtension source.path = some extension

instance (target : Target) (source : SourceFile) : Decidable (target.Lists source) :=
  inferInstanceAs (Decidable (_ ∧ _))

instance (extensions : List Text) (source : SourceFile) : Decidable (source.IsCompiled extensions) :=
  inferInstanceAs (Decidable (_ ∧ _))

namespace Sources

variable {extensions : List Text} {targets others : List Target} {path : Text}

theorem hasSources_iff {kind : TargetKind} : kind.hasSources = true ↔ kind ≠ .other := by
  cases kind <;> decide

theorem isPaired_iff {source : SourceFile} : isPaired extensions source = true ↔ source.IsCompiled extensions := by
  have hlanguage : source.language.any Language.isCFamily = true ↔
      source.language = some .c ∨ source.language = some .cxx := by
    rcases source.language with _ | language
    · simp
    · cases language <;> simp [Language.isCFamily]
  have hextension : source.extension.any (extensions.contains ·) = true ↔
      ∃ extension ∈ extensions, Path.fileExtension source.path = some extension := by
    rw [SourceFile.extension]
    cases Path.fileExtension source.path <;> simp
  rw [isPaired, Bool.and_eq_true, hlanguage, hextension, SourceFile.IsCompiled]

theorem isPaired_eq_false_iff {source : SourceFile} :
    isPaired extensions source = false ↔ ¬ source.IsCompiled extensions := by
  rw [← isPaired_iff, Bool.not_eq_true]

theorem mem_listings_iff_lists {owner : Text} {source : SourceFile} : (owner, source) ∈ listings targets ↔
    ∃ target ∈ targets, target.name = owner ∧ target.Lists source := by
  rw [mem_listings]
  simp only [hasSources_iff, Target.Lists]
  constructor
  · rintro ⟨target, htarget, hkind, rfl, hsource, hgenerated⟩
    exact ⟨target, htarget, rfl, hkind, hsource, hgenerated⟩
  · rintro ⟨target, htarget, rfl, hkind, hsource, hgenerated⟩
    exact ⟨target, htarget, hkind, rfl, hsource, hgenerated⟩

/-! ## Paths -/

theorem listedAs_iff {p : SourceFile → Prop} {paired : Bool}
    (hp : ∀ source, isPaired extensions source = paired ↔ p source) :
    ListedAs extensions paired (listings targets) path ↔
      ∃ target ∈ targets, ∃ source, target.Lists source ∧ p source ∧ source.path = path := by
  constructor
  · rintro ⟨⟨owner, source⟩, hlisting, hpaired, hpath⟩
    obtain ⟨target, htarget, -, hlists⟩ := mem_listings_iff_lists.1 hlisting
    exact ⟨target, htarget, source, hlists, (hp source).1 hpaired, hpath⟩
  · rintro ⟨target, htarget, source, hlists, hsource, hpath⟩
    exact ⟨(target.name, source), mem_listings_iff_lists.2 ⟨target, htarget, rfl, hlists⟩, (hp source).2 hsource, hpath⟩

/-! ## Owners -/

def ownerListings (extensions : List Text) (targets : List Target) (path : Text) : List Text :=
  targets.flatMap (fun target =>
    (target.sources.filter
        (fun source => target.Lists source ∧ source.IsCompiled extensions ∧ source.path = path)).map
      (fun _ => target.name))

theorem mem_ownerListings {owner : Text} : owner ∈ ownerListings extensions targets path ↔
    ∃ target ∈ targets, target.name = owner ∧
      ∃ source, target.Lists source ∧ source.IsCompiled extensions ∧ source.path = path := by
  simp only [ownerListings, List.mem_flatMap, List.mem_map, List.mem_filter, decide_eq_true_eq]
  constructor
  · rintro ⟨target, htarget, source, ⟨-, hsource⟩, rfl⟩
    exact ⟨target, htarget, rfl, source, hsource⟩
  · rintro ⟨target, htarget, rfl, source, hsource⟩
    exact ⟨target, htarget, source, ⟨hsource.1.2.1, hsource⟩, rfl⟩

theorem listings_cons (target : Target) (targets : List Target) :
    listings (target :: targets) = listings [target] ++ listings targets := by
  rw [listings, listings, listings, ← List.flatMap_append, ← List.filter_append, List.singleton_append]

theorem ownersIn_listings_singleton (extensions : List Text) (path : Text) (target : Target) :
    ownersIn extensions path (listings [target]) = ownerListings extensions [target] path := by
  by_cases hkind : target.kind.hasSources = true
  · have hsame : ∀ source ∈ target.sources,
        ((isPaired extensions source && decide (source.path = path)) && !source.generated) =
          decide (target.Lists source ∧ source.IsCompiled extensions ∧ source.path = path) := by
      intro source hsource
      have hlists : target.Lists source ↔ source.generated = false :=
        ⟨fun h => h.2.2, fun h => ⟨hasSources_iff.1 hkind, hsource, h⟩⟩
      rw [Bool.eq_iff_iff]
      simp only [Bool.and_eq_true, Bool.not_eq_true', decide_eq_true_eq, isPaired_iff, hlists]
      rw [and_comm]
    simp only [ownersIn, ownerListings, listings, hkind, List.filter_cons_of_pos, List.filter_nil,
      List.flatMap_singleton, List.filter_map, List.filter_filter, List.map_map, Function.comp_def,
      List.filter_congr hsame]
  -- a target that lists nothing owns nothing
  · have hnone : ∀ source ∈ target.sources,
        ¬ decide (target.Lists source ∧ source.IsCompiled extensions ∧ source.path = path) = true := by
      intro source _ h
      exact hkind (hasSources_iff.2 (of_decide_eq_true h).1.1)
    have hlistings : listings [target] = [] := by simp [listings, hkind]
    rw [hlistings, ownerListings, List.flatMap_singleton, List.filter_eq_nil_iff.2 hnone]
    rfl

theorem ownersIn_listings (extensions : List Text) (path : Text) : ∀ targets : List Target,
    ownersIn extensions path (listings targets) = ownerListings extensions targets path
  | [] => rfl
  | target :: targets => by
    rw [listings_cons, ownersIn_append, ownersIn_listings_singleton, ownersIn_listings extensions path targets,
      ownerListings, ownerListings, ownerListings, ← List.flatMap_append, List.singleton_append]

/-! ## Another order -/

/-- The same targets in another order, each with its sources in another order. -/
def Reordered (targets others : List Target) : Prop :=
  ∃ between, targets.Perm between ∧
    List.Forall₂ (fun target other => ∃ sources, target.sources.Perm sources ∧ other = { target with sources })
      between others

theorem mem_listings_of_reordered (h : Reordered targets others) (listing : Text × SourceFile) :
    listing ∈ listings targets ↔ listing ∈ listings others := by
  obtain ⟨between, hperm, hsources⟩ := h
  have hbetween : listing ∈ listings targets ↔ listing ∈ listings between := by
    simp only [mem_listings, hperm.mem_iff]
  rw [hbetween]
  clear hbetween hperm
  -- target by target, since only the sources of one target change their order at a time
  induction hsources with
  | nil => rfl
  | @cons target other targets others hhead _ ih =>
    obtain ⟨sources, hperm, rfl⟩ := hhead
    have hfirst : listing ∈ listings [target] ↔ listing ∈ listings [{ target with sources }] := by
      simp [mem_listings, hperm.mem_iff]
    rw [listings_cons target, listings_cons { target with sources }, List.mem_append, List.mem_append]
    exact or_congr hfirst ih

/-- Maps with the same keys are related as soon as the values under each key are. -/
theorem forall₂_of_keys {r : List Text → List Text → Prop} : ∀ {entries changed : List (Text × List Text)},
    entries.map (·.1) = changed.map (·.1) →
    (∀ key a b, (key, a) ∈ entries → (key, b) ∈ changed → r a b) →
    List.Forall₂ (fun entry change => entry.1 = change.1 ∧ r entry.2 change.2) entries changed
  | [], [], _, _ => .nil
  | [], _ :: _, hkeys, _ => nomatch hkeys
  | _ :: _, [], hkeys, _ => nomatch hkeys
  | (key, a) :: entries, (other, b) :: changed, hkeys, h => by
    obtain ⟨hkey, hrest⟩ := List.cons.inj hkeys
    obtain rfl : key = other := hkey
    exact .cons ⟨rfl, h key a b List.mem_cons_self List.mem_cons_self⟩
      (forall₂_of_keys hrest (fun k a b ha hb => h k a b (List.mem_cons_of_mem _ ha) (List.mem_cons_of_mem _ hb)))

theorem listedAs_of_reordered (h : Reordered targets others) (paired : Bool) :
    ListedAs extensions paired (listings targets) path ↔ ListedAs extensions paired (listings others) path := by
  simp only [ListedAs, mem_listings_of_reordered h]

theorem other_of_reordered (h : Reordered targets others) :
    (classify extensions others).other = (classify extensions targets).other := by
  refine SortedList.eq_of_mem_iff (sorted_classify ..).other (sorted_classify ..).other (fun path => ?_)
  rw [mem_other_classify, mem_other_classify, listedAs_of_reordered h]

theorem paired_of_reordered (h : Reordered targets others) :
    List.Forall₂ (fun entry change => entry.1 = change.1 ∧ entry.2.Perm change.2)
      (classify extensions targets).paired (classify extensions others).paired := by
  have hkeys : (classify extensions targets).paired.map (·.1) = (classify extensions others).paired.map (·.1) := by
    refine SortedList.eq_of_mem_iff (sorted_classify ..).paired (sorted_classify ..).paired (fun path => ?_)
    rw [mem_paired_classify, mem_paired_classify, listedAs_of_reordered h]
  refine forall₂_of_keys hkeys (fun path owners changed howners hchanged => ?_)
  rw [List.perm_ext_iff_of_nodup (keepsFirst_owners_classify howners).nodup (keepsFirst_owners_classify hchanged).nodup]
  intro owner
  simp only [mem_owners_classify howners, mem_owners_classify hchanged, mem_listings_of_reordered h]

/-! ## Classification as a whole -/

/-- **Classification is a partition of what the targets list**, by whether it is a compiled file, and the owners of a
compiled file are the targets that list it as one. -/
theorem classify_partition (extensions : List Text) (targets : List Target) :
    (∀ path, path ∈ (classify extensions targets).paired.map (·.1) ↔
      ∃ target ∈ targets, ∃ source, target.Lists source ∧ source.IsCompiled extensions ∧ source.path = path) ∧
    (∀ path owners, (path, owners) ∈ (classify extensions targets).paired →
      KeepsFirst (ownerListings extensions targets path) owners ∧
      ∀ owner, owner ∈ owners ↔ ∃ target ∈ targets, target.name = owner ∧
        ∃ source, target.Lists source ∧ source.IsCompiled extensions ∧ source.path = path) ∧
    (∀ path, path ∈ (classify extensions targets).other ↔
      ∃ target ∈ targets, ∃ source, target.Lists source ∧ ¬ source.IsCompiled extensions ∧ source.path = path) ∧
    (∀ path, path ∈ (classify extensions targets).paired.map (·.1) ∨ path ∈ (classify extensions targets).other ↔
      ∃ target ∈ targets, ∃ source, target.Lists source ∧ source.path = path) ∧
    (classify extensions targets).Sorted ∧
    (∀ others, Reordered targets others →
      (classify extensions others).other = (classify extensions targets).other ∧
      List.Forall₂ (fun entry change => entry.1 = change.1 ∧ entry.2.Perm change.2)
        (classify extensions targets).paired (classify extensions others).paired) := by
  have hpaired : ∀ path, path ∈ (classify extensions targets).paired.map (·.1) ↔
      ∃ target ∈ targets, ∃ source, target.Lists source ∧ source.IsCompiled extensions ∧ source.path = path :=
    fun path => mem_paired_classify.trans (listedAs_iff (fun _ => isPaired_iff))
  have hother : ∀ path, path ∈ (classify extensions targets).other ↔
      ∃ target ∈ targets, ∃ source, target.Lists source ∧ ¬ source.IsCompiled extensions ∧ source.path = path :=
    fun path => mem_other_classify.trans (listedAs_iff (fun _ => isPaired_eq_false_iff))
  refine ⟨hpaired, fun path owners howners => ?_, hother, fun path => ?_, sorted_classify extensions targets,
    fun others h => ⟨other_of_reordered h, paired_of_reordered h⟩⟩
  · have hfirst := keepsFirst_owners_classify howners
    rw [ownersIn_listings] at hfirst
    exact ⟨hfirst, fun owner => (hfirst.mem_iff owner).trans mem_ownerListings⟩
  · rw [hpaired, hother]
    constructor
    · rintro (⟨target, htarget, source, hlists, -, hpath⟩ | ⟨target, htarget, source, hlists, -, hpath⟩)
      · exact ⟨target, htarget, source, hlists, hpath⟩
      · exact ⟨target, htarget, source, hlists, hpath⟩
    · rintro ⟨target, htarget, source, hlists, hpath⟩
      by_cases hcompiled : source.IsCompiled extensions
      · exact Or.inl ⟨target, htarget, source, hlists, hcompiled, hpath⟩
      · exact Or.inr ⟨target, htarget, source, hlists, hcompiled, hpath⟩

-- a file that is listed twice by one target, and by a later one as another file too
example :
    let file : SourceFile := { path := "/s/x.c", language := some .c }
    let tool : Target := { name := "tool", kind := .utility, buildDirectory := "/b", sources := [file, file] }
    let app : Target :=
      { name := "app", kind := .executable, buildDirectory := "/b", sources := [{ path := "/s/x.c" }, file] }
    classify ["c"] [tool, app] = { paired := [("/s/x.c", ["tool", "app"])], other := ["/s/x.c"] } := by decide

end Sources
end IdeExport
