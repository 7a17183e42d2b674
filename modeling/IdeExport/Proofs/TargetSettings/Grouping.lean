import IdeExport.Proofs.ListValue.Joining
import IdeExport.TargetSettings
/-!
# Grouping the entries of list values

List values that leave nothing open have the same items one by one and joined (`ListValue.allItems_join`).  So it makes
no difference to the settings of a target whether the entries of a list are given one by one or joined into one entry
(`ofTarget_joined`).
-/
namespace IdeExport

/-! ## Lists of entries -/

inductive EntryList
  | directoryDefines
  | defines
  | compileFlags
  | includeDirectories
  | cSystemIncludes
  | cxxSystemIncludes
  | cSharedLibraryFlags
  | cxxSharedLibraryFlags
  deriving DecidableEq, Repr

namespace EntryList

def entries (settings : BuildSettings) (target : Target) : EntryList → List Text
  | directoryDefines => target.directoryDefines
  | defines => target.defines
  | compileFlags => target.compileFlags
  | includeDirectories => target.includeDirectories
  | cSystemIncludes => settings.cSystemIncludes
  | cxxSystemIncludes => settings.cxxSystemIncludes
  | cSharedLibraryFlags => settings.cSharedLibraryFlags
  | cxxSharedLibraryFlags => settings.cxxSharedLibraryFlags

/-- A target with the entries of a list joined into one, if it is a list of targets. -/
def joinInTarget (list : EntryList) (target : Target) : Target :=
  match list with
  | directoryDefines => { target with directoryDefines := [Text.join ";" target.directoryDefines] }
  | defines => { target with defines := [Text.join ";" target.defines] }
  | compileFlags => { target with compileFlags := [Text.join ";" target.compileFlags] }
  | includeDirectories => { target with includeDirectories := [Text.join ";" target.includeDirectories] }
  | _ => target

def joinInSettings (list : EntryList) (settings : BuildSettings) : BuildSettings :=
  match list with
  | cSystemIncludes => { settings with cSystemIncludes := [Text.join ";" settings.cSystemIncludes] }
  | cxxSystemIncludes => { settings with cxxSystemIncludes := [Text.join ";" settings.cxxSystemIncludes] }
  | cSharedLibraryFlags => { settings with cSharedLibraryFlags := [Text.join ";" settings.cSharedLibraryFlags] }
  | cxxSharedLibraryFlags => { settings with cxxSharedLibraryFlags := [Text.join ";" settings.cxxSharedLibraryFlags] }
  | _ => settings

def joinInProject (list : EntryList) (chosen : Target → Bool) (project : Project) : Project :=
  { project with targets := project.targets.map (fun t => if chosen t then list.joinInTarget t else t) }

/-- A graph with the entries of a list joined into one, in the settings and in the chosen targets. -/
def joinInGraph (list : EntryList) (chosen : Target → Bool) (graph : ProjectGraph) : ProjectGraph where
  settings := list.joinInSettings graph.settings
  project := list.joinInProject chosen graph.project
  siblings := graph.siblings.map (list.joinInProject chosen)

variable {list : EntryList} {graph : ProjectGraph} {target : Target}

/-! ## What a joined list changes -/

theorem entries_joined (list : EntryList) (settings : BuildSettings) (target : Target) :
    list.entries (list.joinInSettings settings) (list.joinInTarget target) =
      [Text.join ";" (list.entries settings target)] := by
  cases list <;> rfl

theorem entries_of_ne {other : EntryList} (h : other ≠ list) (settings : BuildSettings) (target : Target) :
    other.entries (list.joinInSettings settings) (list.joinInTarget target) = other.entries settings target := by
  cases list <;> cases other <;> first | rfl | exact absurd rfl h

theorem allItems_entries (h : ∀ entry ∈ list.entries graph.settings target, ListValue.IsClosed entry)
    (other : EntryList) :
    ListValue.allItems (other.entries (list.joinInSettings graph.settings) (list.joinInTarget target)) =
      ListValue.allItems (other.entries graph.settings target) := by
  by_cases hother : other = list
  · rw [hother, entries_joined, ListValue.allItems_join h]
  · rw [entries_of_ne hother]

theorem languageSet_joined (list : EntryList) (settings : BuildSettings) :
    (list.joinInSettings settings).languageSet = settings.languageSet := by
  cases list <;> rfl

theorem buildType_joined (list : EntryList) (settings : BuildSettings) :
    (list.joinInSettings settings).buildType = settings.buildType := by
  cases list <;> rfl

theorem linkLibraries_joined (list : EntryList) (target : Target) :
    (list.joinInTarget target).linkLibraries = target.linkLibraries := by
  cases list <;> rfl

theorem name_joined (list : EntryList) (target : Target) : (list.joinInTarget target).name = target.name := by
  cases list <;> rfl

theorem locationFor_joined (list : EntryList) (target : Target) :
    (list.joinInTarget target).locationFor = target.locationFor := by
  cases list <;> rfl

/-- The list of the shared-library flags that count for the leading language. -/
def leadingFlags (settings : BuildSettings) : EntryList :=
  if settings.languageSet.cxx then cxxSharedLibraryFlags else cSharedLibraryFlags

theorem sharedLibraryFlags_eq (settings : BuildSettings) (target : Target) :
    settings.sharedLibraryFlags = (leadingFlags settings).entries settings target := by
  unfold BuildSettings.sharedLibraryFlags LanguageSet.primary leadingFlags
  cases settings.languageSet.cxx <;> rfl

theorem leadingFlags_joined (list : EntryList) (settings : BuildSettings) :
    leadingFlags (list.joinInSettings settings) = leadingFlags settings := by
  rw [leadingFlags, leadingFlags, languageSet_joined]

/-! ## The settings of a target -/

theorem ofTarget_eq (graph : ProjectGraph) (target : Target) : TargetSettings.ofTarget graph target =
    { defines := TargetSettings.distinctItems
        (directoryDefines.entries graph.settings target ++ defines.entries graph.settings target)
      flags := TargetSettings.distinctItems
        (compileFlags.entries graph.settings target ++ (leadingFlags graph.settings).entries graph.settings target)
      includeDirectories := TargetSettings.distinctItems
        (includeDirectories.entries graph.settings target ++ cSystemIncludes.entries graph.settings target ++
          cxxSystemIncludes.entries graph.settings target)
      links := target.linkLibraries.map (TargetSettings.linkEntry graph) } := by
  rw [← sharedLibraryFlags_eq]
  rfl

/-- A joined list makes no difference as long as links are resolved as before. -/
theorem ofTarget_congr_joined (h : ∀ entry ∈ list.entries graph.settings target, ListValue.IsClosed entry)
    {joined : ProjectGraph} (hsettings : joined.settings = list.joinInSettings graph.settings)
    (hlinks : ∀ item, TargetSettings.linkEntry joined item = TargetSettings.linkEntry graph item) :
    TargetSettings.ofTarget joined (list.joinInTarget target) = TargetSettings.ofTarget graph target := by
  have hlinkEntry : TargetSettings.linkEntry joined = TargetSettings.linkEntry graph := funext hlinks
  rw [ofTarget_eq, ofTarget_eq, hsettings, leadingFlags_joined, linkLibraries_joined, hlinkEntry]
  simp only [TargetSettings.distinctItems, ListValue.allItems_append, allItems_entries h]

theorem findTarget_joinInGraph (list : EntryList) (chosen : Target → Bool) (graph : ProjectGraph) (name : Text) :
    (list.joinInGraph chosen graph).findTarget name =
      (graph.findTarget name).map (fun t => if chosen t then list.joinInTarget t else t) := by
  have htargets : (graph.siblings.map (list.joinInProject chosen)).flatMap Project.targets =
      (graph.siblings.flatMap Project.targets).map (fun t => if chosen t then list.joinInTarget t else t) := by
    rw [List.flatMap_map, List.map_flatMap]
    rfl
  have hname : (fun t : Target => decide (t.name = name)) ∘ (fun t => if chosen t then list.joinInTarget t else t) =
      fun t => decide (t.name = name) := by
    funext t
    rw [Function.comp_apply]
    split
    · rw [name_joined]
    · rfl
  show (graph.project.targets.map _ ++ (graph.siblings.map _).flatMap Project.targets).find? _ = _
  rw [htargets, ← List.map_append, List.find?_map, hname]
  rfl

theorem linkEntry_joinInGraph (list : EntryList) (chosen : Target → Bool) (graph : ProjectGraph) (item : Text) :
    TargetSettings.linkEntry (list.joinInGraph chosen graph) item = TargetSettings.linkEntry graph item := by
  have hbuild : (list.joinInGraph chosen graph).buildType = graph.buildType := buildType_joined list graph.settings
  unfold TargetSettings.linkEntry
  rw [findTarget_joinInGraph, hbuild]
  cases graph.findTarget item with
  | none => rfl
  | some found =>
    have hlocation : (if chosen found then list.joinInTarget found else found).locationFor = found.locationFor := by
      split
      · exact locationFor_joined list found
      · rfl
    simp only [Option.map_some, bind, Option.bind_some, hlocation]

/-- **The settings of a target do not depend on how the entries of a list are grouped.**  It makes no difference either
in which targets of the graph the entries are grouped alike. -/
theorem ofTarget_joined (list : EntryList) (graph : ProjectGraph) (target : Target)
    (h : ∀ entry ∈ list.entries graph.settings target, ListValue.IsClosed entry) :
    TargetSettings.ofTarget { graph with settings := list.joinInSettings graph.settings } (list.joinInTarget target) =
      TargetSettings.ofTarget graph target ∧
    ∀ chosen : Target → Bool, TargetSettings.ofTarget (list.joinInGraph chosen graph) (list.joinInTarget target) =
      TargetSettings.ofTarget graph target := by
  refine ⟨ofTarget_congr_joined h rfl (fun item => ?_), fun chosen =>
    ofTarget_congr_joined h rfl (linkEntry_joinInGraph list chosen graph)⟩
  have hbuild : (list.joinInSettings graph.settings).buildType = graph.settings.buildType := buildType_joined list _
  simp only [TargetSettings.linkEntry, ProjectGraph.buildType, hbuild]
  rfl

/-- A program with brackets, an escaped semicolon, an empty entry and a repeated one among its defines. -/
def nestedDefines : Target where
  name := "app"
  kind := .executable
  directoryDefines := ["A;D"]
  defines := ["B;A", "x[a;b]", "C\\;D", "", "B"]
  linkLibraries := ["util"]
  buildDirectory := "/b"

theorem ofTarget_joined_nestedDefines :
    let graph : ProjectGraph :=
      ⟨{ homeDirectory := "/s", homeOutputDirectory := "/b" },
        { name := "demo", outputDirectory := "/b", targets := [nestedDefines] }, []⟩
    (∀ entry ∈ defines.entries graph.settings nestedDefines, ListValue.IsClosed entry) ∧
    (defines.joinInTarget nestedDefines).defines = [("B;A;x[a;b];C\\;D;;B" : Text)] ∧
    TargetSettings.ofTarget graph (defines.joinInTarget nestedDefines) =
      { defines := ["A", "D", "B", "x[a;b]", "C;D"], links := [⟨"util", none⟩] } := by
  intro graph
  have hclosed : ∀ entry ∈ defines.entries graph.settings nestedDefines, ListValue.IsClosed entry := by decide
  exact ⟨hclosed, by decide, (ofTarget_joined defines graph nestedDefines hclosed).1.trans (by decide)⟩

end EntryList
end IdeExport
