import IdeExport.Data.Value
import IdeExport.Text.Digits
/-!
# Writing JSON

The layout with one item or field on a line and two spaces for each level.
-/
namespace IdeExport
namespace Json

def escapeCharacter (c : Char) : Text :=
  if c = '"' then "\\\""
  else if c = '\\' then "\\\\"
  else if c = '\n' then "\\n"
  else if c = '\r' then "\\r"
  else if c = '\t' then "\\t"
  else if c.toNat = 8 then "\\b"
  else if c.toNat = 12 then "\\f"
  else if c.toNat < 0x20 then "\\u00" ++ [Text.hexDigit (c.toNat / 16), Text.hexDigit (c.toNat % 16)]
  else [c]

def quoted (t : Text) : Text := "\"" ++ t.flatMap escapeCharacter ++ "\""

def lineBreak (level : Nat) : Text := '\n' :: List.replicate (2 * level) ' '

mutual

/-- A value whose first line is at a level of indentation. -/
def pretty (level : Nat) : Value → Text
  | .null | .invalidNumber | .unreadable => "null"
  | .bool true => "true"
  | .bool false => "false"
  | .number digits => digits
  | .text t => quoted t
  | .date written => quoted written
  | .array [] => "[]"
  | .array (v :: vs) =>
    "[" ++ (lineBreak (level + 1) ++ pretty (level + 1) v) ++ prettyItems (level + 1) vs ++ lineBreak level ++ "]"
  | .object [] => "\x7b\x7d"
  | .object ((name, v) :: fields) =>
    "\x7b" ++ (lineBreak (level + 1) ++ quoted name ++ ": " ++ pretty (level + 1) v) ++
      prettyFields (level + 1) fields ++ lineBreak level ++ "\x7d"

def prettyItems (level : Nat) : List Value → Text
  | [] => []
  | v :: vs => "," ++ lineBreak level ++ pretty level v ++ prettyItems level vs

def prettyFields (level : Nat) : List (Text × Value) → Text
  | [] => []
  | (name, v) :: fields =>
    "," ++ lineBreak level ++ quoted name ++ ": " ++ pretty level v ++ prettyFields level fields

end

end Json
end IdeExport
