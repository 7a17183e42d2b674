import IdeExport.Markup.Element
/-!
# Reading elements

A reader for elements, in two steps.  A scanner goes through a text one character at a time and cuts it into tags;
between tags it passes over white space and refuses everything else.  The tags are then nested into elements.  The
scanner does not know which elements are open, and the nesting does not know how a tag was written.
-/
namespace IdeExport
namespace Markup

/-! ## Characters -/

/-- Letters, digits and the signs that a name may hold.  Letters beyond ASCII are not told apart from the other
characters there. -/
def isNameChar (c : Char) : Bool := c.isAlphanum || ['_', '-', '.', ':'].contains c || 128 ≤ c.toNat

def isSpace (c : Char) : Bool := [' ', '\t', '\r', '\n'].contains c

/-- Whether a text can be the name of an element or the key of an attribute. -/
def isWord (name : Text) : Bool := !name.isEmpty && name.all isNameChar

/-! ## Attribute values -/

/-- The value that a text between quotes stands for.  An ampersand has to begin one of the five entities, each of
which is replaced once: what it stands for is not looked at again. -/
def decode : Text → Option Text
  | [] => some []
  | '&' :: 'a' :: 'm' :: 'p' :: ';' :: rest => (decode rest).map ('&' :: ·)
  | '&' :: 'l' :: 't' :: ';' :: rest => (decode rest).map ('<' :: ·)
  | '&' :: 'g' :: 't' :: ';' :: rest => (decode rest).map ('>' :: ·)
  | '&' :: 'q' :: 'u' :: 'o' :: 't' :: ';' :: rest => (decode rest).map ('"' :: ·)
  | '&' :: 'a' :: 'p' :: 'o' :: 's' :: ';' :: rest => (decode rest).map ('\'' :: ·)
  | c :: rest => if c = '&' ∨ c = '<' then none else (decode rest).map (c :: ·)

/-! ## Tags -/

structure TagHead where
  name : Text
  attributes : List (Text × Text) := []
  deriving DecidableEq, Repr

inductive Tag
  | selfClosing (head : TagHead)
  | opening (head : TagHead)
  | closing (name : Text)
  deriving DecidableEq, Repr

/-- What a scanner is in the middle of, with what it has read of it. -/
inductive ScanMode
  | between
  | tagBegun
  | name (name : Text)
  | inTag (head : TagHead)
  | key (head : TagHead) (key : Text)
  | keyEnded (head : TagHead) (key : Text)
  | value (head : TagHead) (key raw : Text)
  | valueEnded (head : TagHead)
  | slashed (head : TagHead)
  | closing (name : Text)
  deriving DecidableEq, Repr

structure Scanner where
  mode : ScanMode := .between
  tags : List Tag := []
  deriving DecidableEq, Repr

namespace Scanner

def turn (s : Scanner) (mode : ScanMode) : Option Scanner := some { s with mode }

def emit (s : Scanner) (tag : Tag) : Option Scanner := some ⟨.between, s.tags ++ [tag]⟩

/-- Read the character after a name, a value or white space in a tag, unless it begins a key. -/
def afterPiece (s : Scanner) (head : TagHead) (c : Char) : Option Scanner :=
  if isSpace c then s.turn (.inTag head)
  else if c = '/' then s.turn (.slashed head)
  else if c = '>' then s.emit (.opening head)
  else none

def step (s : Scanner) (c : Char) : Option Scanner :=
  match s.mode with
  | .between => if isSpace c then some s else if c = '<' then s.turn .tagBegun else none
  | .tagBegun =>
    if c = '/' then s.turn (.closing []) else if isNameChar c then s.turn (.name [c]) else none
  | .name name => if isNameChar c then s.turn (.name (name ++ [c])) else s.afterPiece ⟨name, []⟩ c
  | .inTag head => if isNameChar c then s.turn (.key head [c]) else s.afterPiece head c
  | .key head key =>
    if isNameChar c then s.turn (.key head (key ++ [c])) else if c = '=' then s.turn (.keyEnded head key) else none
  | .keyEnded head key => if c = '"' then s.turn (.value head key []) else none
  | .value head key raw =>
    if c = '"' then
      (decode raw).bind (fun value =>
        s.turn (.valueEnded { head with attributes := head.attributes ++ [(key, value)] }))
    else s.turn (.value head key (raw ++ [c]))
  | .valueEnded head => s.afterPiece head c
  | .slashed head => if c = '>' then s.emit (.selfClosing head) else none
  | .closing name =>
    if isNameChar c then s.turn (.closing (name ++ [c])) else if c = '>' then s.emit (.closing name) else none

def run (s : Scanner) (text : Text) : Option Scanner := text.foldlM step s

end Scanner

def scan (text : Text) : Option (List Tag) :=
  match ({} : Scanner).run text with
  | some ⟨.between, tags⟩ => some tags
  | _ => none

/-! ## Elements -/

/-- An element that has been opened, and the elements before it in the one around it. -/
structure OpenElement where
  head : TagHead
  elders : List Element
  deriving Repr

/-- Nest tags into elements.  `siblings` are the elements read so far inside the innermost of the open ones. -/
def nest (outer : List OpenElement) (siblings : List Element) : List Tag → Option (List Element)
  | [] => if outer.isEmpty then some siblings else none
  | .selfClosing head :: tags => nest outer (siblings ++ [⟨head.name, head.attributes, [], false⟩]) tags
  | .opening head :: tags => nest (⟨head, siblings⟩ :: outer) [] tags
  | .closing name :: tags =>
    match outer with
    | [] => none
    | inner :: outer =>
      if inner.head.name = name then
        nest outer (inner.elders ++ [⟨name, inner.head.attributes, siblings, siblings.isEmpty⟩]) tags
      else none

/-- The one element that a text holds.  The whole text is read. -/
def readElement (text : Text) : Option Element :=
  match (scan text).bind (nest [] []) with
  | some [e] => some e
  | _ => none

namespace Element

mutual

/-- An element as far as its text tells: a container is told from other elements only if it has no children. -/
def visible : Element → Element
  | ⟨name, attributes, children, container⟩ =>
    ⟨name, attributes, visibleAll children, container && children.isEmpty⟩

def visibleAll : List Element → List Element
  | [] => []
  | e :: es => visible e :: visibleAll es

end

mutual

def isWellNamed : Element → Bool
  | ⟨name, attributes, children, _⟩ =>
    isWord name && attributes.all (fun pair => isWord pair.1) && areWellNamed children

def areWellNamed : List Element → Bool
  | [] => true
  | e :: es => isWellNamed e && areWellNamed es

end

end Element

end Markup
end IdeExport
