import IdeExport.ListFiles
import IdeExport.Proofs.Folder.Arrangement
import IdeExport.Proofs.Path.Resolution
import Mathlib.Data.List.Nodup
/-!
# The places of list files

A list file that is listed has a place: the folders that lead to it below the home directory, and its name.  It is
listed with the path that its place spells, so files with different places are listed with different paths
(`placedPath_inj`).
-/
namespace IdeExport
namespace ListFiles

def placements (settings : BuildSettings) (includeRoot : Bool) (files : List Text) : List (List Text × Text) :=
  files.filterMap (placement? settings includeRoot)

def placedPath (settings : BuildSettings) (placement : List Text × Text) : Text :=
  entryBase settings ++ Text.terminated "/" placement.1 ++ placement.2

def listedPaths (settings : BuildSettings) (includeRoot : Bool) (files : List Text) : List Text :=
  ((folders settings includeRoot files).entries (entryBase settings)).map (·.path)

theorem listedPaths_perm (settings : BuildSettings) (includeRoot : Bool) (files : List Text) :
    (listedPaths settings includeRoot files).Perm
      ((placements settings includeRoot files).map (placedPath settings)) := by
  have hentries := Folder.entries_ofInsertions (entryBase settings) (placements settings includeRoot files)
  have hpaths := hentries.map (·.path)
  rw [List.map_map] at hpaths
  exact hpaths

theorem mem_listedPaths {settings : BuildSettings} {includeRoot : Bool} {files : List Text} {path : Text} :
    path ∈ listedPaths settings includeRoot files ↔
      ∃ placement ∈ placements settings includeRoot files, placedPath settings placement = path := by
  rw [(listedPaths_perm settings includeRoot files).mem_iff, List.mem_map]

theorem components_of_placement {settings : BuildSettings} {includeRoot : Bool} {file : Text}
    {placement : List Text × Text} (h : placement? settings includeRoot file = some placement) :
    placement.1 ++ [placement.2] = Path.components (Path.relativeTo settings.homeDirectory file) := by
  unfold placement? at h
  split at h
  · cases h
  · dsimp only at h
    split at h
    · cases h
    · split at h
      · cases h
      · rename_i name hname
        split at h
        · cases h
        · cases h
          exact List.dropLast_append_getLast? name hname

theorem components_placedPath {settings : BuildSettings} {includeRoot : Bool} {file : Text}
    {placement : List Text × Text} (h : placement? settings includeRoot file = some placement) :
    Path.components (placedPath settings placement) =
      Path.components settings.homeDirectory ++ (placement.1 ++ [placement.2]) := by
  have hbelow : Path.components (Text.terminated "/" placement.1 ++ placement.2) = placement.1 ++ [placement.2] := by
    refine Path.components_terminated (fun c hc => ?_)
    rw [components_of_placement h] at hc
    exact ⟨Path.isComponent_of_mem_components hc, Path.slash_not_mem_component hc⟩
  have hpath : placedPath settings placement
      = settings.homeDirectory ++ '/' :: (Text.terminated "/" placement.1 ++ placement.2) := by
    rw [placedPath, entryBase, List.append_assoc, List.append_assoc]
    rfl
  rw [hpath, Path.components_append_slash, hbelow]

theorem placedPath_inj {settings : BuildSettings} {includeRoot : Bool} {files : List Text} {p q : List Text × Text}
    (hp : p ∈ placements settings includeRoot files) (hq : q ∈ placements settings includeRoot files)
    (h : placedPath settings p = placedPath settings q) : p = q := by
  obtain ⟨file, -, hfile⟩ := List.mem_filterMap.1 hp
  obtain ⟨other, -, hother⟩ := List.mem_filterMap.1 hq
  have hcomponents := congrArg Path.components h
  rw [components_placedPath hfile, components_placedPath hother] at hcomponents
  obtain ⟨hlabels, hname⟩ := List.append_inj' (List.append_cancel_left hcomponents) rfl
  exact Prod.ext hlabels (List.singleton_inj.1 hname)

theorem nodup_listedPaths_iff {settings : BuildSettings} {includeRoot : Bool} {files : List Text} :
    (listedPaths settings includeRoot files).Nodup ↔ (placements settings includeRoot files).Nodup := by
  rw [(listedPaths_perm settings includeRoot files).nodup_iff]
  constructor
  · exact List.Nodup.of_map _
  · intro h
    exact (List.nodup_map_iff_inj_on h).2 (fun p hp q hq => placedPath_inj hp hq)

end ListFiles
end IdeExport
