import IdeExport.Text.Basic
/-!
# Line differences

The lines of a text, and a report of the lines in which two texts differ.
-/
namespace IdeExport
namespace Text

/-! ## Lines -/

/-- The line without the carriage return of its line end. -/
def dropReturn (line : Text) : Text :=
  match line.getLast? with
  | some '\r' => line.dropLast
  | _ => line

/-- The lines of a text.  A line ends at a line feed, to which a carriage return just before it belongs; what
follows the last line feed is a line unless it is empty. -/
def lines (t : Text) : List Text :=
  let pieces := split '\n' t
  pieces.dropLast.map dropReturn ++ (pieces.getLast?.toList.filter (!·.isEmpty))

/-! ## The report -/

def missingLine : Text := "<missing>"

/-- What the report says about one pair of lines: nothing if they are equal, else the number of the line and
the line in each text. -/
def lineEntry (number : Nat) (expected actual : Text) : Text :=
  if expected = actual then []
  else
    "Line " ++ ofNat number ++ ":\n" ++
    "  expected: " ++ expected ++ "\n" ++
    "  actual:   " ++ actual ++ "\n"

def lineEntries (number : Nat) : List Text → List Text → Text
  | [], [] => []
  | e :: es, [] => lineEntry number e missingLine ++ lineEntries (number + 1) es []
  | [], a :: as => lineEntry number missingLine a ++ lineEntries (number + 1) [] as
  | e :: es, a :: as => lineEntry number e a ++ lineEntries (number + 1) es as

/-- The report on two texts, or `none` when they are equal.  Texts that differ in line ends only have a report
without entries. -/
def lineDiff (expected actual : Text) : Option Text :=
  if expected = actual then none
  else some ("Content mismatch:\n" ++ lineEntries 1 (lines expected) (lines actual))

theorem lineDiff_eq_none_iff (expected actual : Text) : lineDiff expected actual = none ↔ expected = actual := by
  unfold lineDiff
  split <;> simp [*]

end Text
end IdeExport
