import IdeExport.Data.Value
import IdeExport.Json.Token
/-!
# Reading JSON

Values are put together by a machine that takes one token at a time and keeps the open arrays and objects on a
stack, so no text is too deep for it.
-/
namespace IdeExport
namespace Json

/-! ## Words -/

/-- A text after its leading digits, of which there must be one. -/
def afterDigits? (t : Text) : Option Text :=
  match t with
  | c :: cs => if c.isDigit then some (cs.dropWhile Char.isDigit) else none
  | [] => none

def isExponent : Text → Bool
  | [] => true
  | e :: t =>
    (e = 'e' || e = 'E') &&
      match t with
      | '+' :: t | '-' :: t => afterDigits? t = some []
      | t => afterDigits? t = some []

/-- Whether a text is what may follow the integer part of a number. -/
def isFraction : Text → Bool
  | '.' :: t => (afterDigits? t).any isExponent
  | t => isExponent t

/-- Whether a text is a number without a sign.  A number does not begin with a zero, unless that is all of its
integer part. -/
def isUnsigned : Text → Bool
  | '0' :: t => isFraction t
  | t => (afterDigits? t).any isFraction

def isNumber : Text → Bool
  | '-' :: t => isUnsigned t
  | t => isUnsigned t

def wordValue? (w : Text) : Option Value :=
  if w = "null" then some .null
  else if w = "true" then some (.bool true)
  else if w = "false" then some (.bool false)
  else if isNumber w then some (.number w)
  else none

/-! ## The machine -/

/-- An array or object that is not closed yet.  What is in it stands last one first; an object knows the name
of the field that is being read. -/
inductive Frame
  | array (items : List Value)
  | object (fields : List (Option Text × Value)) (name : Option Text)
  deriving Repr

abbrev Stack := List Frame

inductive State
  | value (stack : Stack)
  /-- The first item of an array, or the end of it. -/
  | firstItem (stack : Stack)
  /-- The first name in an object, or the end of it. -/
  | firstName (stack : Stack)
  | name (stack : Stack)
  | colon (stack : Stack)
  /-- A comma, or the end of what is open. -/
  | next (stack : Stack)
  | done (v : Value)
  deriving Repr

/-- An object of fields in order.  One unreadable name makes the whole object unreadable. -/
def objectOf (fields : List (Option Text × Value)) : Value :=
  match fields.mapM (fun field => field.1.map (fun name => (name, field.2))) with
  | some fields => .object fields
  | none => .unreadable

def deliver (v : Value) : Stack → State
  | [] => .done v
  | .array items :: stack => .next (.array (v :: items) :: stack)
  | .object fields name :: stack => .next (.object ((name, v) :: fields) none :: stack)

def beginValue? (stack : Stack) : Token → Option State
  | .openArray => some (.firstItem (.array [] :: stack))
  | .openObject => some (.firstName (.object [] none :: stack))
  | .string (some t) => some (deliver (.text t) stack)
  | .string none => some (deliver .unreadable stack)
  | .word w => (wordValue? w).map (deliver · stack)
  | _ => none

def close? : Stack → Token → Option State
  | .array items :: stack, .closeArray => some (deliver (.array items.reverse) stack)
  | .object fields _ :: stack, .closeObject => some (deliver (objectOf fields.reverse) stack)
  | _, _ => none

def name? : Stack → Token → Option State
  | .object fields _ :: stack, .string name => some (.colon (.object fields name :: stack))
  | _, _ => none

def comma? : Stack → Option State
  | .array items :: stack => some (.value (.array items :: stack))
  | .object fields name :: stack => some (.name (.object fields name :: stack))
  | [] => none

def State.step? : State → Token → Option State
  | .value stack, token => beginValue? stack token
  | .firstItem stack, .closeArray => close? stack .closeArray
  | .firstItem stack, token => beginValue? stack token
  | .firstName stack, .closeObject => close? stack .closeObject
  | .firstName stack, token => name? stack token
  | .name stack, token => name? stack token
  | .colon stack, .colon => some (.value stack)
  | .colon _, _ => none
  | .next stack, .comma => comma? stack
  | .next stack, token => close? stack token
  | .done _, _ => none

def runTokens : State → List Token → Option State
  | state, [] => some state
  | state, token :: tokens =>
    match state.step? token with
    | none => none
    | some state => runTokens state tokens

def parse? (text : Text) : Option Value :=
  match (tokens? text).bind (runTokens (.value [])) with
  | some (.done v) => some v
  | _ => none

end Json
end IdeExport
