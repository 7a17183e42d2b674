import IdeExport.Text.Digits
/-!
# TOML tokens

A TOML text is cut into tokens one character at a time, like a JSON text.  Bare keys, numbers, dates and the
dots between keys are all words here: only the place of a word in the document says which it is, and whether its
characters may stand in it.
-/
namespace IdeExport
namespace Toml

inductive Token
  | blank
  | newline
  | equals
  | comma
  | openBracket
  | closeBracket
  | openBrace
  | closeBrace
  | word (text : Text)
  | string (content : Text)
  /-- A string that may span lines; it cannot be a key. -/
  | longString (content : Text)
  deriving DecidableEq, Repr

/-! ## Characters -/

def punctuation? : Char → Option Token
  | ' ' | '\t' => some .blank
  | '\n' => some .newline
  | '=' => some .equals
  | ',' => some .comma
  | '[' => some .openBracket
  | ']' => some .closeBracket
  | '{' => some .openBrace
  | '}' => some .closeBrace
  | _ => none

def isBareCharacter (c : Char) : Bool := c.isAlphanum || c = '_' || c = '-'

/-- Whether a character goes on with a word.  All do that are no token of their own and begin no comment and no
line end, so what a word may look like is decided where it stands. -/
def isWordCharacter (c : Char) : Bool := c ≠ '#' && c ≠ '\r' && (punctuation? c).isNone

/-- Whether a character may stand in a comment or a string as it is; the line feed may in a long string. -/
def isPlain (c : Char) : Bool := c = '\t' || (0x20 ≤ c.toNat && c.toNat ≠ 0x7F)

def simpleEscape? : Char → Option Char
  | '"' => some '"'
  | '\\' => some '\\'
  | 'b' => some (Char.ofNat 8)
  | 'e' => some (Char.ofNat 0x1B)
  | 'f' => some (Char.ofNat 12)
  | 'n' => some '\n'
  | 'r' => some '\r'
  | 't' => some '\t'
  | _ => none

/-- The character of a code point, which must not be a surrogate. -/
def ofCodePoint? (n : Nat) : Option Char := if n.isValidChar then some (Char.ofNat n) else none

/-- Whether a word that is read last character first is a date, which a space and a time may follow. -/
def isDateReversed (read : Text) : Bool :=
  match read.reverse with
  | [a, b, c, d, '-', e, f, '-', g, h] => [a, b, c, d, e, f, g, h].all Char.isDigit
  | _ => false

/-! ## The scan -/

/-- The two kinds of quotes; only the basic kind has escapes. -/
inductive Quote
  | basic
  | literal
  deriving DecidableEq, Repr

def Quote.character : Quote → Char
  | .basic => '"'
  | .literal => '\''

/-- What has been read of a token; the parts of it are kept last one first. -/
inductive Scan
  | between
  /-- A carriage return, which a line feed has to follow. -/
  | return
  | comment
  | commentReturn
  | word (read : Text)
  | dateGap (read : Text)
  /-- One or two quotes, which may be the beginning of three. -/
  | opening (quote : Quote) (two : Bool)
  | short (quote : Quote) (read : Text)
  /-- The beginning of a long string, where a line end does not count. -/
  | longStart (quote : Quote)
  | longStartReturn (quote : Quote)
  /-- A long string that has been read up to some quotes, which may be the end of it. -/
  | long (quote : Quote) (read : Text) (quotes : Nat)
  | longReturn (quote : Quote) (read : Text)
  | escape (isLong : Bool) (read : Text)
  | hex (isLong : Bool) (read : Text) (missing value : Nat)
  /-- The space that a backslash at the end of a line hides; `lineEnded` says whether the line end has come. -/
  | gap (read : Text) (lineEnded : Bool)
  | gapReturn (read : Text)
  deriving Repr

def start (c : Char) : List Token × Scan :=
  if c = '\r' then ([], .return)
  else if c = '#' then ([], .comment)
  else if c = '"' then ([], .opening .basic false)
  else if c = '\'' then ([], .opening .literal false)
  else
    match punctuation? c with
    | some token => ([token], .between)
    | none => ([], .word [c])

def startAfter (token : Token) (c : Char) : List Token × Scan := (token :: (start c).1, (start c).2)

/-- Whether a character goes on with a word that is read last character first.  A quote does so as well, unless
it follows a dot. -/
def goesOn (read : Text) (c : Char) : Bool :=
  isWordCharacter c && !(read.head? = some '.' && (c = '"' || c = '\''))

def longCharacter? (quote : Quote) (read : Text) (c : Char) : Option (List Token × Scan) :=
  if c = '\r' then some ([], .longReturn quote read)
  else if c = '\\' ∧ quote = .basic then some ([], .escape true read)
  else if c = '\n' ∨ isPlain c then some ([], .long quote (c :: read) 0)
  else none

/-- A long string whose last characters are some quotes. -/
def longToken (quote : Quote) (read : Text) (quotes : Nat) : Token :=
  .longString (read.reverse ++ List.replicate quotes quote.character)

def resume (isLong : Bool) (read : Text) : Scan := if isLong then .long .basic read 0 else .short .basic read

/-- One character: the tokens that it completes, and what is read after it. -/
def Scan.step? : Scan → Char → Option (List Token × Scan)
  | .between, c => some (start c)
  | .return, c => if c = '\n' then some ([.newline], .between) else none
  | .comment, c =>
    if c = '\n' then some ([.newline], .between)
    else if c = '\r' then some ([], .commentReturn)
    else if isPlain c then some ([], .comment)
    else none
  | .commentReturn, c => if c = '\n' then some ([.newline], .between) else none
  | .word read, c =>
    if goesOn read c then some ([], .word (c :: read))
    else if c = ' ' ∧ isDateReversed read then some ([], .dateGap read)
    else some (startAfter (.word read.reverse) c)
  | .dateGap read, c =>
    if c.isDigit then some ([], .word (c :: ' ' :: read))
    else some (.word read.reverse :: (startAfter .blank c).1, (startAfter .blank c).2)
  | .opening quote false, c =>
    if c = quote.character then some ([], .opening quote true)
    else if c = '\\' ∧ quote = .basic then some ([], .escape false [])
    else if isPlain c then some ([], .short quote [c])
    else none
  | .opening quote true, c =>
    if c = quote.character then some ([], .longStart quote) else some (startAfter (.string []) c)
  | .short quote read, c =>
    if c = quote.character then some ([.string read.reverse], .between)
    else if c = '\\' ∧ quote = .basic then some ([], .escape false read)
    else if isPlain c then some ([], .short quote (c :: read))
    else none
  | .longStart quote, c =>
    if c = '\n' then some ([], .long quote [] 0)
    else if c = '\r' then some ([], .longStartReturn quote)
    else if c = quote.character then some ([], .long quote [] 1)
    else longCharacter? quote [] c
  | .longStartReturn quote, c => if c = '\n' then some ([], .long quote [] 0) else none
  | .long quote read quotes, c =>
    if c = quote.character then
      if quotes = 4 then some ([longToken quote read 2], .between) else some ([], .long quote read (quotes + 1))
    else if quotes ≥ 3 then some (startAfter (longToken quote read (quotes - 3)) c)
    else longCharacter? quote (List.replicate quotes quote.character ++ read) c
  | .longReturn quote read, c => if c = '\n' then some ([], .long quote ('\n' :: '\r' :: read) 0) else none
  | .escape isLong read, c =>
    if c = 'x' then some ([], .hex isLong read 2 0)
    else if c = 'u' then some ([], .hex isLong read 4 0)
    else if c = 'U' then some ([], .hex isLong read 8 0)
    else if isLong ∧ (c = ' ' ∨ c = '\t') then some ([], .gap read false)
    else if isLong ∧ c = '\n' then some ([], .gap read true)
    else if isLong ∧ c = '\r' then some ([], .gapReturn read)
    else (simpleEscape? c).map (fun e => ([], resume isLong (e :: read)))
  | .hex isLong read missing value, c =>
    match Text.hexDigit? c with
    | none => none
    | some digit =>
      let value := value * 16 + digit
      if missing ≤ 1 then (ofCodePoint? value).map (fun e => ([], resume isLong (e :: read)))
      else some ([], .hex isLong read (missing - 1) value)
  | .gap read lineEnded, c =>
    if c = ' ' ∨ c = '\t' then some ([], .gap read lineEnded)
    else if c = '\n' then some ([], .gap read true)
    else if c = '\r' then some ([], .gapReturn read)
    else if !lineEnded then none
    else if c = '"' then some ([], .long .basic read 1)
    else longCharacter? .basic read c
  | .gapReturn read, c => if c = '\n' then some ([], .gap read true) else none

def Scan.finish? : Scan → Option (List Token)
  | .between | .comment => some []
  | .word read | .dateGap read => some [.word read.reverse]
  | .opening _ true => some [.string []]
  | .long quote read quotes => if quotes ≥ 3 then some [longToken quote read (quotes - 3)] else none
  | _ => none

/-- The tokens of the rest of a text; `done` holds those before it, last one first. -/
def tokensFrom (done : List Token) (scan : Scan) : Text → Option (List Token)
  | [] => scan.finish?.map (done.reverse ++ ·)
  | c :: cs =>
    match scan.step? c with
    | none => none
    | some (tokens, scan) => tokensFrom (tokens.reverse ++ done) scan cs

/-- The mark that may stand at the beginning of a text to tell its encoding. -/
def byteOrderMark : Char := Char.ofNat 0xFEFF

def tokens? : Text → Option (List Token)
  | [] => some []
  | c :: cs => tokensFrom [] .between (if c = byteOrderMark then cs else c :: cs)

end Toml
end IdeExport
