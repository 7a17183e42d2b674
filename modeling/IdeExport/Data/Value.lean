import IdeExport.Text.Basic
/-!
# Data values

What a data file says, before anybody has asked what it means.  Records are read from these values and written
to them; the formats of data files are the business of other modules.
-/
namespace IdeExport

inductive Value
  | null
  | bool (b : Bool)
  /-- A number as it was written.  No record has numbers in it. -/
  | number (digits : Text)
  /-- What looks like a number but is none, because it is out of all ranges or has no digits.  It may stand only
  where nobody looks at it. -/
  | invalidNumber
  | text (t : Text)
  /-- A date, a time or both, in standard form.  No record has those in it either. -/
  | date (standard : Text)
  | array (items : List Value)
  /-- The fields in the order in which they were given; a name may come twice. -/
  | object (fields : List (Text × Value))
  /-- What can stand in a data file and still means nothing: a string with half a character in it, or an object
  with such a name. -/
  | unreadable
  deriving Repr

namespace Value

mutual

/-- Whether a value can be looked at and passed over. -/
def isSound : Value → Bool
  | .invalidNumber => false
  | .array items => areSound items
  | .object fields => haveSoundValues fields
  | _ => true

def areSound : List Value → Bool
  | [] => true
  | v :: vs => v.isSound && areSound vs

def haveSoundValues : List (Text × Value) → Bool
  | [] => true
  | (_, v) :: fields => v.isSound && haveSoundValues fields

end

/-- The values of a name among the fields of an object, in order. -/
def named (name : Text) (fields : List (Text × Value)) : List Value :=
  (fields.filter (·.1 = name)).map (·.2)

end Value
end IdeExport
