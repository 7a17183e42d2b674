import IdeExport.Folder
/-!
# The entries of virtual folders

What is in a folder and in those inside it, with the labels that lead there, are its contents.  The entries are the
contents in the same order, with each of them spelled out as a path and a folder (`entries_eq_map`).
-/
namespace IdeExport
namespace Folder

def placed (folder directory : Text) (insertion : List Text × Text) : FolderEntry where
  path := directory ++ Text.terminated "/" insertion.1 ++ insertion.2
  folder := displayPath (folder ++ Text.terminated "\\" insertion.1)

theorem placed_nil (folder directory file : Text) :
    placed folder directory ([], file) = ⟨directory ++ file, displayPath folder⟩ := by
  simp only [placed, Text.terminated, List.flatMap_nil, List.append_nil]

theorem placed_cons (folder directory label : Text) (labels : List Text) (file : Text) :
    placed folder directory (label :: labels, file)
      = placed (folder ++ label ++ "\\") (directory ++ label ++ "/") (labels, file) := by
  simp only [placed, Text.terminated_cons, List.append_assoc]

/-- An insertion as seen from outside the folder of a label. -/
def under (label : Text) (insertion : List Text × Text) : List Text × Text := (label :: insertion.1, insertion.2)

mutual

/-- What is in a folder and in those inside it, with the labels that lead there, in the order of the entries. -/
def contents : Folder → List (List Text × Text)
  | ⟨_, files, folders⟩ => files.map (([], ·)) ++ contentsOf folders

def contentsOf : List Folder → List (List Text × Text)
  | [] => []
  | ⟨label, files, folders⟩ :: rest => (contents ⟨label, files, folders⟩).map (under label) ++ contentsOf rest

end

mutual

theorem entriesBelow_eq_map : ∀ (folder directory : Text) (f : Folder),
    entriesBelow folder directory f = (contents f).map (placed folder directory)
  | folder, directory, ⟨label, files, folders⟩ => by
    rw [entriesBelow, contents, List.map_append, List.map_map, entriesOf_eq_map folder directory folders]
    exact congrArg (· ++ _) (List.map_congr_left (fun file _ => (placed_nil folder directory file).symm))

theorem entriesOf_eq_map : ∀ (folder directory : Text) (fs : List Folder),
    entriesOf folder directory fs = (contentsOf fs).map (placed folder directory)
  | _, _, [] => rfl
  | folder, directory, ⟨label, files, folders⟩ :: rest => by
    have hinside := entriesBelow_eq_map (folder ++ label ++ "\\") (directory ++ label ++ "/") ⟨label, files, folders⟩
    rw [entriesOf, contentsOf, List.map_append, List.map_map, hinside, entriesOf_eq_map folder directory rest]
    exact congrArg (· ++ _) (List.map_congr_left (fun i _ => (placed_cons folder directory label i.1 i.2).symm))

end

theorem entries_eq_map (f : Folder) (directory : Text) : f.entries directory = (contents f).map (placed [] directory) :=
  entriesBelow_eq_map [] directory f

theorem contents_relabel (f : Folder) (label : Text) : contents { f with label } = contents f := by
  cases f
  rw [contents, contents]

theorem contentsOf_map {folder : Text → Folder} (hlabel : ∀ l, (folder l).label = l) : ∀ labels : List Text,
    contentsOf (labels.map folder) = labels.flatMap (fun l => (contents (folder l)).map (under l))
  | [] => rfl
  | l :: labels => by
    have hcons : ∀ (f : Folder) (fs : List Folder),
        contentsOf (f :: fs) = (contents f).map (under f.label) ++ contentsOf fs := by
      rintro ⟨_, _, _⟩ fs
      rw [contentsOf]
    rw [List.map_cons, hcons, hlabel, contentsOf_map hlabel labels, List.flatMap_cons]

end Folder
end IdeExport
