import IdeExport.Text.Digits
/-!
# JSON tokens

A JSON text is cut into tokens one character at a time: `Scan` is what has been read of the token at hand, and
each character either goes on with it or ends it and begins the next.
-/
namespace IdeExport
namespace Json

inductive Token
  | openArray
  | closeArray
  | openObject
  | closeObject
  | comma
  | colon
  /-- A literal or a number. -/
  | word (text : Text)
  /-- A string, or `none` if its escapes leave half a character. -/
  | string (content : Option Text)
  deriving DecidableEq, Repr

/-! ## Characters -/

def isSpace (c : Char) : Bool := c = ' ' || c = '\t' || c = '\n' || c = '\r'

def punctuation? : Char → Option Token
  | '[' => some .openArray
  | ']' => some .closeArray
  | '{' => some .openObject
  | '}' => some .closeObject
  | ',' => some .comma
  | ':' => some .colon
  | _ => none

def isWordCharacter (c : Char) : Bool := c.isAlphanum || c = '+' || c = '-' || c = '.'

def simpleEscape? : Char → Option Char
  | '"' => some '"'
  | '\\' => some '\\'
  | '/' => some '/'
  | 'b' => some (Char.ofNat 8)
  | 'f' => some (Char.ofNat 12)
  | 'n' => some '\n'
  | 'r' => some '\r'
  | 't' => some '\t'
  | _ => none

/-! ## Code units

A string is read as a list of numbers: the code points of its plain characters and the numbers of its escapes,
of which two may make up one character. -/

def isHighSurrogate (u : Nat) : Bool := 0xD800 ≤ u && u < 0xDC00

def isLowSurrogate (u : Nat) : Bool := 0xDC00 ≤ u && u < 0xE000

/-- The characters of some code units, if no half of a pair stands alone. -/
def ofUnits : List Nat → Option Text
  | [] => some []
  | [u] => if isHighSurrogate u || isLowSurrogate u then none else some [Char.ofNat u]
  | u :: v :: units =>
    if isHighSurrogate u then
      if isLowSurrogate v then
        (ofUnits units).map (Char.ofNat (0x10000 + (u - 0xD800) * 0x400 + (v - 0xDC00)) :: ·)
      else none
    else if isLowSurrogate u then none
    else (ofUnits (v :: units)).map (Char.ofNat u :: ·)

/-! ## The scan -/

/-- What has been read of a token; the parts of it are kept last one first. -/
inductive Scan
  | between
  | word (read : Text)
  | string (units : List Nat)
  | escape (units : List Nat)
  | hex (units : List Nat) (missing value : Nat)
  deriving Repr

def begin? (c : Char) : Option (List Token × Scan) :=
  if isSpace c then some ([], .between)
  else if c = '"' then some ([], .string [])
  else if isWordCharacter c then some ([], .word [c])
  else (punctuation? c).map (fun token => ([token], .between))

/-- One character: the tokens that it completes, and what is read after it. -/
def Scan.step? : Scan → Char → Option (List Token × Scan)
  | .between, c => begin? c
  | .word read, c =>
    if isWordCharacter c then some ([], .word (c :: read))
    else (begin? c).map (fun (tokens, scan) => (.word read.reverse :: tokens, scan))
  | .string units, c =>
    if c = '"' then some ([.string (ofUnits units.reverse)], .between)
    else if c = '\\' then some ([], .escape units)
    else if c.toNat < 0x20 then none
    else some ([], .string (c.toNat :: units))
  | .escape units, c =>
    if c = 'u' then some ([], .hex units 4 0)
    else (simpleEscape? c).map (fun e => ([], .string (e.toNat :: units)))
  | .hex units missing value, c =>
    (Text.hexDigit? c).map (fun digit =>
      let value := value * 16 + digit
      if missing ≤ 1 then ([], .string (value :: units)) else ([], .hex units (missing - 1) value))

def Scan.finish? : Scan → Option (List Token)
  | .between => some []
  | .word read => some [.word read.reverse]
  | _ => none

/-- The tokens of the rest of a text; `done` holds those before it, last one first. -/
def tokensFrom (done : List Token) (scan : Scan) : Text → Option (List Token)
  | [] => scan.finish?.map (done.reverse ++ ·)
  | c :: cs =>
    match scan.step? c with
    | none => none
    | some (tokens, scan) => tokensFrom (tokens.reverse ++ done) scan cs

def tokens? (text : Text) : Option (List Token) := tokensFrom [] .between text

end Json
end IdeExport
