import IdeExport.Proofs.Data.Shape
import IdeExport.Proofs.Data.Spelling
import IdeExport.Snapshot.Records
/-!
# Snapshots written and read

A snapshot is read back from what is written for it, in any spelling (`decode?_spelled`).  Only a language could get
lost: what is kept as another tag though it is the tag of a known language is read as the known one.  Nothing that was
read is such a language, so reading and writing once makes data that stay as they are.
-/
namespace IdeExport

open Codec

namespace Snapshot

def mapFields : List Text := ["locations"]

end Snapshot

/-! ## Languages -/

namespace Language

/-- A tag is kept only if no language has a constructor of its own for it. -/
def IsProper (l : Language) : Prop := ∀ tag, l = other tag → tag ∉ known.map Language.tag

theorem isProper_ofTag (t : Text) : (ofTag t).IsProper := by
  rintro tag heq hknown
  obtain ⟨l, hl, rfl⟩ := List.mem_map.1 hknown
  have htag := tag_ofTag t
  rw [heq] at htag
  unfold ofTag at heq
  cases hfind : known.find? (·.tag = t) with
  | none =>
    have hne := List.find?_eq_none.1 hfind l hl
    exact hne (decide_eq_true htag)
  | some found =>
    have hfound := List.mem_of_find?_eq_some hfind
    rw [hfind, Option.getD_some] at heq
    rw [heq] at hfound
    revert hfound
    simp [known]

theorem ofTag_tag {l : Language} (h : l.IsProper) : ofTag l.tag = l := by
  cases l with
  | other t =>
    have hnone : known.find? (·.tag = t) = none := by
      refine List.find?_eq_none.2 (fun l hl htag => h t rfl ?_)
      exact List.mem_map.2 ⟨l, hl, by simpa using htag⟩
    show (known.find? (·.tag = t)).getD (other t) = other t
    rw [hnone]
    rfl
  | _ => decide

theorem reads_codec : codec.Reads Snapshot.mapFields IsProper :=
  fun format l v hl hv => reads_text.imap format l v (ofTag_tag hl) hv

theorem reads_nullable : (nullable codec).Reads Snapshot.mapFields (fun o => ∀ l, o = some l → l.IsProper) := by
  refine reads_codec.nullable (fun l v hv => ?_)
  rw [Value.ByPosition.eq_text hv]
  exact Value.noConfusion

theorem yields_codec : codec.Yields IsProper := by
  intro format v l hread
  obtain ⟨t, -, rfl⟩ := Option.map_eq_some_iff.1 hread
  exact isProper_ofTag t

theorem fits_codec : codec.Fits .plain := fits_text.imap

end Language

theorem TargetKind.reads_codec : codec.Reads Snapshot.mapFields (fun _ => True) := reads_named ofName?_name

theorem RefreshStyle.reads_codec : codec.Reads Snapshot.mapFields (fun _ => True) := reads_named ofName?_name

/-! ## Records -/

namespace SourceFile

def languages (s : SourceFile) : List Language := s.language.toList

theorem reads_codec : codec.Reads Snapshot.mapFields (fun s => ∀ l ∈ s.languages, l.IsProper) := by
  refine Reads.record (by decide) (fun _ => rfl) (fun format given s hs h => ?_)
  have hproper : ∀ l, s.language = some l → l.IsProper := fun l hl => hs l (by simp [languages, hl])
  refine h.field reads_text trivial (fun h => ?_)
  refine h.fieldOr Language.reads_nullable hproper (fun h => ?_)
  exact h.fieldOr reads_bool trivial (fun _ => rfl)

theorem yields_codec : codec.Yields (fun s => ∀ l ∈ s.languages, l.IsProper) := by
  refine Yields.record (fun fields => ?_)
  refine forall_bind (fun _ _ => forall_bind (fun language hlanguage => forall_bind (fun _ _ => ?_)))
  rintro s ⟨⟩
  have hproper := Language.yields_codec.nullable.fieldOr (by simp) hlanguage
  simpa [languages] using hproper

def shape : Shape := .record [("path", .plain), ("language", .plain), ("generated", .plain)]

theorem fits_codec : codec.Fits shape :=
  Fits.record (fun _ => fits_text.cons (Language.fits_codec.nullable.cons (fits_bool.cons rfl)))

end SourceFile

namespace Target

def languages (t : Target) : List Language := t.sources.flatMap SourceFile.languages

theorem reads_codec : codec.Reads Snapshot.mapFields (fun t => ∀ l ∈ t.languages, l.IsProper) := by
  refine Reads.record (by decide) (fun _ => rfl) (fun format given t ht h => ?_)
  refine h.field reads_text trivial (fun h => ?_)
  refine h.field TargetKind.reads_codec trivial (fun h => ?_)
  refine h.fieldOr reads_bool trivial (fun h => ?_)
  refine h.fieldOr SourceFile.reads_codec.list (List.forall_mem_flatMap.1 ht) (fun h => ?_)
  iterate 5 refine h.fieldOr reads_texts trivial (fun h => ?_)
  refine h.fieldOr reads_nullable_text trivial (fun h => ?_)
  refine h.mapOr (List.mem_singleton_self _) lawful_text.map (fun h => ?_)
  refine h.field reads_text trivial (fun h => ?_)
  exact h.fieldOr reads_nullable_text trivial (fun _ => rfl)

theorem yields_codec : codec.Yields (fun t => ∀ l ∈ t.languages, l.IsProper) := by
  refine Yields.record (fun fields => ?_)
  iterate 3 refine forall_bind (fun _ _ => ?_)
  refine forall_bind (fun sources hsources => ?_)
  iterate 9 refine forall_bind (fun _ _ => ?_)
  rintro t ⟨⟩
  exact List.forall_mem_flatMap.2 (SourceFile.yields_codec.list.fieldOr (by simp) hsources)

def shape : Shape :=
  .record [("name", .plain), ("kind", .plain), ("gui", .plain), ("sources", .list SourceFile.shape),
    ("directory_defines", .list .plain), ("defines", .list .plain), ("compile_flags", .list .plain),
    ("include_directories", .list .plain), ("link_libraries", .list .plain), ("location", .plain), ("locations", .map),
    ("build_directory", .plain), ("support_directory", .plain)]

theorem fits_codec : codec.Fits shape := by
  refine Fits.record (fun _ => fits_text.cons (fits_named.cons (fits_bool.cons ?_)))
  refine SourceFile.fits_codec.list.cons ?_
  iterate 5 refine fits_texts.cons ?_
  exact fits_nullable_text.cons (fits_text.map.cons (fits_text.cons (fits_nullable_text.cons rfl)))

end Target

namespace Project

def languages (p : Project) : List Language := p.targets.flatMap Target.languages

theorem reads_codec : codec.Reads Snapshot.mapFields (fun p => ∀ l ∈ p.languages, l.IsProper) := by
  refine Reads.record (by decide) (fun _ => rfl) (fun format given p hp h => ?_)
  iterate 2 refine h.field reads_text trivial (fun h => ?_)
  refine h.fieldOr reads_texts trivial (fun h => ?_)
  exact h.fieldOr Target.reads_codec.list (List.forall_mem_flatMap.1 hp) (fun _ => rfl)

theorem yields_codec : codec.Yields (fun p => ∀ l ∈ p.languages, l.IsProper) := by
  refine Yields.record (fun fields => ?_)
  iterate 3 refine forall_bind (fun _ _ => ?_)
  refine forall_bind (fun targets htargets => ?_)
  rintro p ⟨⟩
  exact List.forall_mem_flatMap.2 (Target.yields_codec.list.fieldOr (by simp) htargets)

def shape : Shape :=
  .record [("name", .plain), ("output_directory", .plain), ("list_files", .list .plain),
    ("targets", .list Target.shape)]

theorem fits_codec : codec.Fits shape :=
  Fits.record (fun _ => fits_text.cons (fits_text.cons (fits_texts.cons (Target.fits_codec.list.cons rfl))))

end Project

namespace BuildSettings

theorem reads_codec : codec.Reads Snapshot.mapFields (fun s => ∀ l ∈ s.languages, l.IsProper) := by
  refine Reads.record (by decide) (fun _ => rfl) (fun format given s hs h => ?_)
  iterate 2 refine h.field reads_text trivial (fun h => ?_)
  iterate 8 refine h.fieldOr reads_nullable_text trivial (fun h => ?_)
  refine h.fieldOr Language.reads_codec.list hs (fun h => ?_)
  iterate 6 refine h.fieldOr reads_texts trivial (fun h => ?_)
  rfl

theorem yields_codec : codec.Yields (fun s => ∀ l ∈ s.languages, l.IsProper) := by
  refine Yields.record (fun fields => ?_)
  iterate 10 refine forall_bind (fun _ _ => ?_)
  refine forall_bind (fun languages hlanguages => ?_)
  iterate 6 refine forall_bind (fun _ _ => ?_)
  rintro s ⟨⟩
  exact Language.yields_codec.list.fieldOr (by simp [BuildSettings.default, Language.IsProper]) hlanguages

def shape : Shape :=
  .record [("home_directory", .plain), ("home_output_directory", .plain), ("module_root", .plain),
    ("make_program", .plain), ("configure_command", .plain), ("build_type", .plain),
    ("runtime_output_directory", .plain), ("executable_output_path", .plain), ("c_compiler_id", .plain),
    ("cxx_compiler_id", .plain), ("languages", .list .plain), ("source_extensions", .list .plain),
    ("header_extensions", .list .plain), ("c_system_include_dirs", .list .plain),
    ("cxx_system_include_dirs", .list .plain), ("c_shared_library_flags", .list .plain),
    ("cxx_shared_library_flags", .list .plain)]

theorem fits_codec : codec.Fits shape := by
  refine Fits.record (fun _ => fits_text.cons (fits_text.cons ?_))
  iterate 8 refine fits_nullable_text.cons ?_
  refine Language.fits_codec.list.cons ?_
  iterate 6 refine fits_texts.cons ?_
  rfl

end BuildSettings

namespace ExportPolicy

theorem reads_codec : codec.Reads Snapshot.mapFields (fun _ => True) := by
  refine Reads.record (by decide) (fun _ => rfl) (fun format given p _ h => ?_)
  refine h.fieldOr reads_bool trivial (fun h => ?_)
  refine h.fieldOr RefreshStyle.reads_codec trivial (fun h => ?_)
  refine h.fieldOr reads_bool trivial (fun h => ?_)
  exact h.fieldOr reads_text trivial (fun _ => rfl)

def shape : Shape :=
  .record [("unit_targets", .plain), ("refresh", .plain), ("root_list_files", .plain), ("extension", .plain)]

theorem fits_codec : codec.Fits shape :=
  Fits.record (fun _ => fits_bool.cons (fits_named.cons (fits_bool.cons (fits_text.cons rfl))))

end ExportPolicy

/-! ## The snapshot -/

namespace Snapshot

def languages (s : Snapshot) : List Language := s.build.languages ++ s.projects.flatMap Project.languages

theorem reads_codec : codec.Reads mapFields (fun s => ∀ l ∈ s.languages, l.IsProper) := by
  refine Reads.record (by decide) (fun _ => rfl) (fun format given s hs h => ?_)
  obtain ⟨hbuild, hprojects⟩ := List.forall_mem_append.1 hs
  refine h.field BuildSettings.reads_codec hbuild (fun h => ?_)
  refine h.fieldOr ExportPolicy.reads_codec trivial (fun h => ?_)
  exact h.fieldOr Project.reads_codec.list (List.forall_mem_flatMap.1 hprojects) (fun _ => rfl)

theorem yields_codec : codec.Yields (fun s => ∀ l ∈ s.languages, l.IsProper) := by
  refine Yields.record (fun fields => ?_)
  refine forall_bind (fun build hbuild => forall_bind (fun _ _ => forall_bind (fun projects hprojects => ?_)))
  rintro s ⟨⟩
  refine List.forall_mem_append.2 ⟨BuildSettings.yields_codec.field hbuild, ?_⟩
  exact List.forall_mem_flatMap.2 (Project.yields_codec.list.fieldOr (by simp) hprojects)

def shape : Shape :=
  .record [("build", BuildSettings.shape), ("export", ExportPolicy.shape), ("projects", .list Project.shape)]

theorem fits_codec : codec.Fits shape :=
  Fits.record (fun _ => BuildSettings.fits_codec.cons (ExportPolicy.fits_codec.cons (Project.fits_codec.list.cons rfl)))

/-- **A snapshot is read back from every spelling of what is written for it**, if no tag in it is that of a known
language.  What was read is such a snapshot, whatever it was read from, and what is written for it has every field and
no others. -/
theorem decode?_spelled (format : Format) :
    (∀ s : Snapshot, (∀ l ∈ s.languages, l.IsProper) →
      codec.decode? format (codec.encode s) = some s ∧
      ∀ v, Value.ByPosition mapFields (codec.encode s) v → codec.decode? format v = some s) ∧
    ∀ v s, codec.decode? format v = some s →
      codec.decode? format (codec.encode s) = some s ∧ shape.fits (codec.encode s) = true := by
  refine ⟨fun s hs => ⟨reads_codec format s _ hs (.same _), fun v hv => reads_codec format s v hs hv⟩, ?_⟩
  intro v s hread
  exact ⟨reads_codec format s _ (yields_codec format v s hread) (.same _), fits_codec s⟩

/-- A source in a language without a constructor of its own, and a target that is in another place for each build
type. -/
def cudaTarget : Snapshot where
  build := { homeDirectory := "/s", homeOutputDirectory := "/b" }
  projects := [{ name := "demo", outputDirectory := "/b", targets := [{
    name := "app", kind := .executable, buildDirectory := "/b"
    sources := [{ path := "/s/a.cu", language := some (.other "CUDA") }]
    locations := .ofList [("Release", "/b/r/app"), ("Debug", "/b/d/app")] }] }]

def cudaTargetByPosition : Value :=
  .array [BuildSettings.codec.encode cudaTarget.build,
    .array [.bool true, .text "extra-commands", .bool false, .text "cbp"],
    (list Project.codec).encode cudaTarget.projects]

/-- Data with a field that is none of the record's and without most of those that are. -/
def sparse : Value :=
  .object [("build", .object [("home_directory", .text "/s"), ("shell", .number "1"),
    ("home_output_directory", .text "/b")])]

def bare : Snapshot where
  build := { homeDirectory := "/s", homeOutputDirectory := "/b" }

theorem decode?_spelled_cudaTarget :
    (∀ l ∈ cudaTarget.languages, l.IsProper) ∧
    Value.ByPosition mapFields (codec.encode cudaTarget) cudaTargetByPosition ∧
    codec.decode? .json cudaTargetByPosition = some cudaTarget ∧
    codec.decode? .json sparse = some bare ∧ codec.decode? .json (codec.encode bare) = some bare := by
  have hlanguages : cudaTarget.languages = [.c, .cxx, .other "CUDA"] := rfl
  have hproper : ∀ l ∈ cudaTarget.languages, l.IsProper := by
    rw [hlanguages]
    rintro l hl tag rfl
    obtain rfl : tag = "CUDA" := by simpa using hl
    decide
  have hspelled : Value.ByPosition mapFields (codec.encode cudaTarget) cudaTargetByPosition :=
    .positional (.cons (by decide) (.same _) (.cons (by decide)
      (.positional (Value.fieldsByPosition_same _)) (.cons (by decide) (.same _) .nil)))
  obtain ⟨hread, hagain⟩ := decode?_spelled .json
  have hsparse : codec.decode? .json sparse = some bare := rfl
  exact ⟨hproper, hspelled, (hread cudaTarget hproper).2 _ hspelled, hsparse, (hagain _ _ hsparse).1⟩

end Snapshot
end IdeExport
