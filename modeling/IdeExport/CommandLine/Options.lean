import IdeExport.Text.Basic
/-!
# Options

Arguments are read from left to right.  An option is named by a long name behind two dashes, or by a letter
behind one; letters may share a dash.  The value of an option stands in the same argument, or it is the next
one.  Two dashes alone end the options.
-/
namespace IdeExport
namespace CommandLine

structure OptionSpec where
  name : Text
  letter : Option Char := none
  takesValue : Bool := false
  /-- Whether the option may be given more than once. -/
  repeatable : Bool := false
  deriving DecidableEq, Repr

structure GivenOption where
  spec : OptionSpec
  value : Option Text := none
  deriving DecidableEq, Repr

/-! ## Single arguments -/

inductive Reading
  | options (given : List GivenOption)
  /-- Some options, and one more whose value is the next argument. -/
  | needsValue (given : List GivenOption) (spec : OptionSpec)
  | endOfOptions
  deriving Repr

def Reading.after (first : GivenOption) : Reading → Reading
  | options given => options (first :: given)
  | needsValue given spec => needsValue (first :: given) spec
  | endOfOptions => endOfOptions

/-- Options by their letters.  What follows the letter of an option that takes a value is that value, perhaps
behind an equals sign. -/
def readLetters (specs : List OptionSpec) : Text → Option Reading
  | [] => some (.options [])
  | c :: cs =>
    match specs.find? (·.letter = some c) with
    | none => none
    | some spec =>
      if spec.takesValue then
        match cs with
        | [] => some (.needsValue [] spec)
        | '=' :: value => some (.options [⟨spec, some value⟩])
        | value => some (.options [⟨spec, some value⟩])
      else (readLetters specs cs).map (.after ⟨spec, none⟩)

/-- A long name with what follows the first equals sign. -/
def nameAndValue (t : Text) : Text × Option Text :=
  (t.takeWhile (· ≠ '='), (t.dropWhile (· ≠ '=')).tail?)

def readName (specs : List OptionSpec) (t : Text) : Option Reading :=
  let (name, value) := nameAndValue t
  match specs.find? (·.name = name), value with
  | none, _ => none
  | some spec, none => some (if spec.takesValue then .needsValue [] spec else .options [⟨spec, none⟩])
  | some spec, some value => if spec.takesValue then some (.options [⟨spec, some value⟩]) else none

def readArgument (specs : List OptionSpec) : Text → Option Reading
  | ['-', '-'] => some .endOfOptions
  | '-' :: '-' :: t => readName specs t
  | '-' :: c :: cs => readLetters specs (c :: cs)
  | _ => none

/-- Whether an argument can be the value of the option before it: a dash begins an option, unless nothing
follows. -/
def isSeparateValue : Text → Bool
  | '-' :: _ :: _ => false
  | _ => true

/-! ## All arguments -/

structure Arguments where
  given : List GivenOption := []
  extra : List Text := []
  deriving DecidableEq, Repr

namespace Arguments

def prepend (given : List GivenOption) (args : Arguments) : Arguments := { args with given := given ++ args.given }

/-- Read all arguments.  `pending` is an option whose value comes next. -/
def readFrom (specs : List OptionSpec) (pending : Option OptionSpec) : List Text → Option Arguments
  | [] => if pending.isNone then some {} else none
  | arg :: args =>
    match pending with
    | some spec =>
      if isSeparateValue arg then (readFrom specs none args).map (prepend [⟨spec, some arg⟩]) else none
    | none =>
      match readArgument specs arg with
      | none => none
      | some .endOfOptions => some { extra := args }
      | some (.options given) => (readFrom specs none args).map (prepend given)
      | some (.needsValue given spec) => (readFrom specs (some spec) args).map (prepend given)

def count (args : Arguments) (name : Text) : Nat := (args.given.filter (·.spec.name = name)).length

def isOnceOnly (args : Arguments) : Bool :=
  args.given.all (fun given => given.spec.repeatable || args.count given.spec.name = 1)

def read (specs : List OptionSpec) (args : List Text) : Option Arguments :=
  (readFrom specs none args).filter (·.isOnceOnly)

def has (args : Arguments) (name : Text) : Bool := 0 < args.count name

def value? (args : Arguments) (name : Text) : Option Text :=
  (args.given.find? (·.spec.name = name)).bind (·.value)

end Arguments

end CommandLine
end IdeExport
