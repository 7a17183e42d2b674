import IdeExport.SortedList
import IdeExport.Text.Basic
/-!
# Spans

Places in the text of a snapshot, in bytes.  What reads a snapshot keeps no places, so the place of a name is
found again by a search for it, and the place of a syntax error is worked out from its line and column.
-/
namespace IdeExport

structure Span where
  offset : Nat
  size : Nat
  deriving DecidableEq, Repr

namespace Span

/-! ## Names -/

/-- What may stand between a field called `name` and the text of its value. -/
def nameFields : List Text := ["name = ", "name=", "\"name\": ", "\"name\":"]

def quoted (name : Text) : Text := "\"" ++ name ++ "\""

/-- Where a name stands in quotes behind some other text.  The offsets are those of the name itself. -/
def offsetsAfter (before name source : Text) : List Nat :=
  (Text.occurrences (before ++ quoted name) source).map (· + Text.byteSize before + 1)

def fieldOffsets (name source : Text) : List Nat := nameFields.flatMap (offsetsAfter · name source)

/-- Where a name stands: as the value of a field called `name`, or if it does not, in quotes anywhere. -/
def nameOffsets (name source : Text) : List Nat :=
  match fieldOffsets name source with
  | [] => offsetsAfter [] name source
  | offsets => offsets

def allOfName (source name : Text) : List Span :=
  (SortedList.ofList (nameOffsets name source)).map (fun offset => ⟨offset, Text.byteSize name⟩)

def ofName? (source name : Text) : Option Span := (allOfName source name).head?

/-! ## Lines and columns -/

/-- The number of bytes in the first lines of a text, with their line feeds. -/
def bytesOfLines : Nat → Text → Nat
  | _, [] => 0
  | 0, _ => 0
  | n + 1, c :: cs => c.utf8Size + bytesOfLines (if c = '\n' then n else n + 1) cs

/-- The offset of a line and a column, both counted from one.  A column zero is the start of its line.  There is
no line zero, and no offset at or beyond the end of the text. -/
def offsetOf? (source : Text) (line column : Nat) : Option Nat :=
  let offset := bytesOfLines (line - 1) source + (column - 1)
  if line ≠ 0 ∧ offset < Text.byteSize source then some offset else none

/-- The byte that a syntax error at a line and a column is shown at. -/
def ofPosition? (source : Text) (line column : Nat) : Option Span :=
  (offsetOf? source line column).map (fun offset => ⟨offset, 1⟩)

end Span
end IdeExport
