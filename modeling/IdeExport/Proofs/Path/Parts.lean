import IdeExport.Path.Lexical
/-!
# The parts of a path

A path with a slash is a directory, the last slash and a name, and is put together from them in one way only
(`parentDirectory_eq_some_iff`); a path without one is a name.  The base name of a file holds neither slashes nor dots,
so a name that goes on behind one with a dot has it for its own (`baseName_eq_of_lastName`).
-/
namespace IdeExport
namespace Path

theorem parentDirectory_append (directory : Text) {name : Text} (h : '/' ∉ name) :
    parentDirectory (directory ++ '/' :: name) = some directory := by
  simp [parentDirectory, Text.splitLast_append h]

theorem parentDirectory_of_not_mem {path : Text} (h : '/' ∉ path) : parentDirectory path = none := by
  simp [parentDirectory, Text.splitLast_of_not_mem h]

theorem lastName_append (directory : Text) {name : Text} (h : '/' ∉ name) :
    lastName (directory ++ '/' :: name) = name := by
  simp [lastName, Text.splitLast_append h]

theorem lastName_of_not_mem {path : Text} (h : '/' ∉ path) : lastName path = path := by
  simp [lastName, Text.splitLast_of_not_mem h]

theorem slash_not_mem_lastName (path : Text) : '/' ∉ lastName path := by
  unfold lastName
  cases hsplit : Text.splitLast '/' path with
  | none => exact Text.not_mem_of_splitLast_eq_none hsplit
  | some halves => exact (Text.splitLast_eq_some hsplit).2

theorem slash_not_mem_baseName (path : Text) : '/' ∉ baseName path := fun h =>
  slash_not_mem_lastName path ((List.takeWhile_prefix _).mem h)

theorem dot_not_mem_baseName (path : Text) : '.' ∉ baseName path := fun h => by
  simpa using List.all_eq_true.1 List.all_takeWhile '.' h

theorem baseName_eq_of_lastName {path other rest : Text} (h : lastName path = baseName other ++ '.' :: rest) :
    baseName path = baseName other := by
  have hplain : ∀ c ∈ baseName other, decide (c ≠ '.') = true := by
    intro c hc
    simpa using ne_of_mem_of_not_mem hc (dot_not_mem_baseName other)
  rw [baseName, h, List.takeWhile_append_of_pos hplain]
  simp

end Path
end IdeExport
