import IdeExport.Text.Basic
/-!
# List values

A list value packs several items into one text, with a semicolon between items.  A semicolon inside square
brackets belongs to its item, and so does one behind a backslash, which then stands for the semicolon alone.
Empty items do not count.
-/
namespace IdeExport
namespace ListValue

/-- The bracket depth after a character; a closing bracket without a partner leaves it at zero. -/
def depthAfter (depth : Nat) : Char → Nat
  | '[' => depth + 1
  | ']' => depth - 1
  | _ => depth

/-- The pieces of a list value that is read at bracket depth `depth`: its items, and an empty piece wherever
nothing stands between two separators. -/
def pieces (depth : Nat) : Text → List Text
  | [] => [[]]
  | '\\' :: ';' :: cs => Text.attach ';' (pieces depth cs)
  | c :: cs =>
    if c = ';' ∧ depth = 0 then [] :: pieces 0 cs
    else Text.attach c (pieces (depthAfter depth c) cs)

def items (value : Text) : List Text := (pieces 0 value).filter (!·.isEmpty)

def allItems (values : List Text) : List Text := values.flatMap items

theorem ne_nil_of_mem_items {value item : Text} (h : item ∈ items value) : item ≠ [] := by
  have := (List.mem_filter.1 h).2
  simpa using this

end ListValue
end IdeExport
