import IdeExport.Data.Value
import IdeExport.Text.Digits
/-!
# TOML scalars

The values that are written without quotes: truth values, numbers, dates and times.
-/
namespace IdeExport
namespace Toml

/-! ## Digits -/

def digits? (isDigit : Char → Bool) (t : Text) : Option Text :=
  let groups := Text.split '_' t
  if groups.all (fun group => !group.isEmpty && group.all isDigit) then some groups.flatten else none

/-- A text without a sign in front of it, and whether that was a minus. -/
def dropSign : Text → Bool × Text
  | '-' :: t => (true, t)
  | '+' :: t => (false, t)
  | t => (false, t)

/-! ## Numbers -/

/-- The decimal digits of a number that does not begin with a zero, unless it is zero. -/
def decimal? (t : Text) : Option Text :=
  match digits? Char.isDigit t with
  | some ['0'] => some ['0']
  | some ('0' :: _) => none
  | digits => digits

/-- Whether a number fits into 128 bits, with a sign if it is negative. -/
def fits (negative : Bool) (n : Nat) : Bool := if negative then n ≤ Nat.pow 2 127 else n < Nat.pow 2 128

/-- Whether a text of digits in a base is a number that fits.  One without digits has the form of a number as
well. -/
def inBase? (base : Nat) (t : Text) : Option Bool :=
  if t.isEmpty then some false else (digits? (Text.isDigitOf base) t).map (fun d => fits false (Text.ofDigits base d))

def integer? (t : Text) : Option Bool :=
  match t with
  | '0' :: 'x' :: digits => inBase? 16 digits
  | '0' :: 'o' :: digits => inBase? 8 digits
  | '0' :: 'b' :: digits => inBase? 2 digits
  | t =>
    let (negative, t) := dropSign t
    (decimal? t).map (fun d => fits negative (Text.ofDigits 10 d))

/-- Whether a text stands between underscores of a number in form: digits of the larger bases are at the ends of it
that underscores touch. -/
def isGroup (isLast : Bool) (group : Text) : Bool :=
  group.head?.any (Text.isDigitOf 16) && (isLast || group.getLast?.any (Text.isDigitOf 16))

def areGroups : List Text → Bool
  | [] => false
  | [group] => isGroup true group
  | group :: groups => isGroup false group && areGroups groups

/-- Whether a text has underscores like an integer.  Decimal digits have to come before the first one; what the
other groups hold is not looked at more closely, as long as it is no part of a number with a fraction or an
exponent. -/
def isGrouped (t : Text) : Bool :=
  match Text.split '_' (dropSign t).2 with
  | first :: groups =>
    (decimal? first).isSome && first.head? ≠ some '0' && areGroups groups &&
      groups.all (fun group => group.all (fun c => c ≠ '.' && c ≠ 'e' && c ≠ 'E'))
  | [] => false

def mantissa? (t : Text) : Option (Text × Text) :=
  match Text.split '.' t with
  | [whole] => (decimal? whole).map (·, [])
  | [whole, fraction] =>
    match decimal? whole, digits? Char.isDigit fraction with
    | some w, some f => some (w, f)
    | _, _ => none
  | _ => none

def exponent? (t : Text) : Option Int :=
  let (negative, t) := dropSign t
  (digits? Char.isDigit t).map (fun d => if negative then -(Text.ofDigits 10 d : Int) else Text.ofDigits 10 d)

/-- The least number that rounds to no floating-point number of 64 bits. -/
def floatLimit : Nat := Nat.pow 2 1024 - Nat.pow 2 970

/-- Whether `n` times a power of ten is below the limit.  The number of digits alone decides it, unless it is
that of the limit. -/
def isBelowLimit (n : Nat) (exponent : Int) : Bool :=
  let size : Int := (Nat.toDigits 10 n).length + exponent
  n = 0 || size ≤ 308 || (size = 309 && n * Nat.pow 10 exponent.toNat < floatLimit * Nat.pow 10 (-exponent).toNat)

def floatFits (whole fraction : Text) (exponent : Int) : Bool :=
  isBelowLimit (Text.ofDigits 10 (whole ++ fraction)) (exponent - fraction.length)

def float? (t : Text) : Option Bool :=
  let (_, t) := dropSign t
  if t = ['i', 'n', 'f'] ∨ t = ['n', 'a', 'n'] then some true
  else
    match Text.split 'e' (t.map (fun c => if c = 'E' then 'e' else c)) with
    | [mantissa] =>
      match mantissa? mantissa with
      | none | some (_, []) => none
      | some (whole, fraction) => some (floatFits whole fraction 0)
    | [mantissa, exponent] =>
      match mantissa? mantissa, exponent? exponent with
      | some (whole, fraction), some e => some (floatFits whole fraction e)
      | _, _ => none
    | _ => none

/-! ## Dates and times -/

def fixed? (width : Nat) (t : Text) : Option Nat :=
  if t.length = width ∧ t.all Char.isDigit then some (Text.ofDigits 10 t) else none

def isLeapYear (year : Nat) : Bool := year % 4 = 0 && (year % 100 ≠ 0 || year % 400 = 0)

def daysIn (year month : Nat) : Nat :=
  if month = 2 then (if isLeapYear year then 29 else 28)
  else if month = 4 ∨ month = 6 ∨ month = 9 ∨ month = 11 then 30
  else 31

def isDate (t : Text) : Bool :=
  match Text.split '-' t with
  | [y, m, d] =>
    match fixed? 4 y, fixed? 2 m, fixed? 2 d with
    | some year, some month, some day => 1 ≤ month && month ≤ 12 && 1 ≤ day && day ≤ daysIn year month
    | _, _, _ => false
  | _ => false

/-- Whether a text is the seconds of a clock time.  A minute may have a leap second, and a second a fraction. -/
def isSeconds (t : Text) : Bool :=
  match Text.split '.' t with
  | [whole] => (fixed? 2 whole).any (· ≤ 60)
  | [whole, fraction] => (fixed? 2 whole).any (· ≤ 60) && !fraction.isEmpty && fraction.all Char.isDigit
  | _ => false

def isTime (t : Text) : Bool :=
  match Text.split ':' t with
  | [h, m] => (fixed? 2 h).any (· ≤ 23) && (fixed? 2 m).any (· ≤ 59)
  | [h, m, s] => (fixed? 2 h).any (· ≤ 23) && (fixed? 2 m).any (· ≤ 59) && isSeconds s
  | _ => false

def isOffset (t : Text) : Bool :=
  match Text.split ':' t with
  | [h, m] =>
    match fixed? 2 h, fixed? 2 m with
    | some hours, some minutes => hours ≤ 23 && minutes ≤ 59
    | _, _ => false
  | _ => false

def isOffsetTime (t : Text) : Bool :=
  isTime t ||
  (match t.getLast? with
   | some 'Z' | some 'z' => isTime t.dropLast
   | _ => false) ||
  (let offset := t.drop (t.length - 6)
   (offset.head? = some '+' || offset.head? = some '-') && isOffset offset.tail && isTime (t.take (t.length - 6)))

def isDateOrTime (t : Text) : Bool :=
  isDate t || isTime t ||
    match t.drop 10 with
    | 'T' :: time | 't' :: time | ' ' :: time => isDate (t.take 10) && isOffsetTime time
    | _ => false

/-- A fraction of a second, down to billionths and without the zeros at its end. -/
def standardFraction (digits : Text) : Text :=
  match ((digits.take 9).reverse.dropWhile (· = '0')).reverse with
  | [] => []
  | kept => '.' :: kept

def standardTime (t : Text) : Text :=
  match Text.splitLast '.' t with
  | some (whole, fraction) => whole ++ standardFraction fraction
  | none => if t.length = 5 then t ++ ":00" else t

/-- A distance from universal time in its standard form, in which one of zero has a plus. -/
def standardOffset (t : Text) : Text :=
  if t = ("z" : Text) then "Z" else if t = ("-00:00" : Text) then "+00:00" else t

def isTimeCharacter (c : Char) : Bool := c.isDigit || c = ':' || c = '.'

def standardDate (t : Text) : Text :=
  if isTime t then standardTime t
  else
    match t.drop 11 with
    | [] => t
    | time =>
      t.take 10 ++ "T" ++ standardTime (time.takeWhile isTimeCharacter) ++
        standardOffset (time.dropWhile isTimeCharacter)

/-! ## Values -/

/-- The value of a word.  Something that merely looks like a number is one that is not valid. -/
def wordValue? (w : Text) : Option Value :=
  if w = "true" then some (.bool true)
  else if w = "false" then some (.bool false)
  else
    match (integer? w).or (float? w) with
    | some true => some (.number w)
    | some false => some .invalidNumber
    | none =>
      if isGrouped w then some .invalidNumber
      else if isDateOrTime w then some (.date (standardDate w))
      else none

end Toml
end IdeExport
