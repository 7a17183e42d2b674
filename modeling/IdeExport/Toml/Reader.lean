import IdeExport.Toml.Document
import IdeExport.Toml.Scalar
import IdeExport.Toml.Token
/-!
# Reading TOML

A document is read by a machine that takes one token at a time.  It knows the tables it has so far, the header
it is under, and where in a line it stands; the open arrays and inline tables of a value are on a stack.
-/
namespace IdeExport
namespace Toml

/-! ## Keys -/

/-- A dotted key that is being read: its parts, last one first, and whether a part has to follow. -/
structure KeyScan where
  parts : List Text := []
  needsPart : Bool := true
  deriving Repr

namespace KeyScan

def part? (key : KeyScan) (part : Text) : Option KeyScan :=
  if key.needsPart then some ⟨part :: key.parts, false⟩ else none

def dot? (key : KeyScan) : Option KeyScan := if key.needsPart then none else some { key with needsPart := true }

/-- A piece of a word between dots, which may be empty where a quoted part or a space stands beside a dot. -/
def piece? (key : KeyScan) (piece : Text) : Option KeyScan :=
  if piece.isEmpty then some key
  else if piece.all isBareCharacter then key.part? piece
  else none

def dottedPieces? (key : KeyScan) : List Text → Option KeyScan
  | [] => some key
  | piece :: pieces =>
    match key.dot?.bind (·.piece? piece) with
    | none => none
    | some key => dottedPieces? key pieces

def token? (key : KeyScan) : Token → Option KeyScan
  | .string part => key.part? part
  | .word w =>
    match Text.split '.' w with
    | [] => none
    | piece :: pieces => (key.piece? piece).bind (·.dottedPieces? pieces)
  | _ => none

def maxParts : Nat := 80

def complete? (key : KeyScan) : Option (List Text) :=
  if key.needsPart || maxParts < key.parts.length then none else some key.parts.reverse

end KeyScan

/-! ## Values -/

inductive Frame
  /-- The items, last one first. -/
  | array (items : List Value)
  /-- The fields, and the key of the one that is being read. -/
  | inlineTable (entries : Entries) (key : List Text)
  deriving Repr

abbrev Stack := List Frame

inductive Place
  | value
  /-- A value, or the end of the array. -/
  | item
  /-- A comma, or the end of what is open. -/
  | next
  /-- A key in an inline table, or the end of it. -/
  | entry
  | key (key : KeyScan)
  | equals (key : List Text)
  | done (v : Value)
  deriving Repr

def deliver? (v : Value) : Stack → Option (Place × Stack)
  | [] => some (.done v, [])
  | .array items :: stack => some (.next, .array (v :: items) :: stack)
  | .inlineTable entries key :: stack =>
    (assign? key v entries).map (fun entries => (.next, .inlineTable entries [] :: stack))

def maxDepth : Nat := 80

def push? (place : Place) (frame : Frame) (stack : Stack) : Option (Place × Stack) :=
  if stack.length < maxDepth then some (place, frame :: stack) else none

def beginValue? (stack : Stack) : Token → Option (Place × Stack)
  | .string t | .longString t => deliver? (.text t) stack
  | .word w => (wordValue? w).bind (deliver? · stack)
  | .openBracket => push? .item (.array []) stack
  | .openBrace => push? .entry (.inlineTable [] []) stack
  | _ => none

def close? : Stack → Token → Option (Place × Stack)
  | .array items :: stack, .closeBracket => deliver? (.array items.reverse) stack
  | .inlineTable entries _ :: stack, .closeBrace => deliver? (.object (entriesToFields entries)) stack
  | _, _ => none

/-- Whether a token is passed over inside a value.  A line may end where something is open, but not in a key. -/
def isIgnored (place : Place) (stack : Stack) (token : Token) : Bool :=
  match token, place with
  | .blank, _ => true
  | .newline, .key _ => false
  | .newline, _ => !stack.isEmpty
  | _, _ => false

/-- A value has to follow the key of an entry. -/
def afterKey? (parts : List Text) : Stack → Option (Place × Stack)
  | .inlineTable entries _ :: stack => some (.value, .inlineTable entries parts :: stack)
  | _ => none

def keyToken? (key : KeyScan) (stack : Stack) : Token → Option (Place × Stack)
  | .equals => key.complete?.bind (afterKey? · stack)
  | .newline => key.complete?.map (fun parts => (.equals parts, stack))
  | token => (key.token? token).map (fun key => (.key key, stack))

def valueStep? (place : Place) (stack : Stack) (token : Token) : Option (Place × Stack) :=
  if isIgnored place stack token then some (place, stack)
  else
    match place, stack, token with
    | .value, stack, token => beginValue? stack token
    | .item, stack, .closeBracket => close? stack .closeBracket
    | .item, stack, token => beginValue? stack token
    | .next, .array items :: stack, .comma => some (.item, .array items :: stack)
    | .next, .inlineTable entries key :: stack, .comma => some (.entry, .inlineTable entries key :: stack)
    | .next, stack, token => close? stack token
    | .entry, stack, .closeBrace => close? stack .closeBrace
    | .entry, stack, token => keyToken? {} stack token
    | .key key, stack, token => keyToken? key stack token
    | .equals parts, stack, .equals => afterKey? parts stack
    | .equals _, _, _ => none
    | .done _, _, _ => none

/-! ## Lines -/

inductive Position
  | lineStart
  /-- After the first bracket of a line. -/
  | bracket
  /-- In the key of a header, which for an array of tables has two brackets on either side. -/
  | header (isElement : Bool) (key : KeyScan)
  /-- After the first of two closing brackets. -/
  | headerEnd (key : List Text)
  | key (key : KeyScan)
  | value (key : List Text) (place : Place) (stack : Stack)
  /-- Nothing but the end of the line may follow. -/
  | lineEnd
  deriving Repr

structure State where
  entries : Entries := []
  /-- The table that assignments go into. -/
  table : List Text := []
  position : Position := .lineStart
  deriving Repr

def openHeader? (state : State) (isElement : Bool) (path : List Text) : Option State :=
  (if isElement then openElement? path state.entries else openTable? path state.entries).map
    (fun entries => ⟨entries, path, .lineEnd⟩)

def assignValue? (state : State) (key : List Text) : Place × Stack → Option State
  | (.done v, _) =>
    (within? state.table (assign? key v) state.entries).map (fun entries => { state with entries, position := .lineEnd })
  | (place, stack) => some { state with position := .value key place stack }

def lineStart? (state : State) : Token → Option State
  | .newline | .blank => some state
  | .openBracket => some { state with position := .bracket }
  | token => ((KeyScan.mk [] true).token? token).map (fun key => { state with position := .key key })

def header? (state : State) (isElement : Bool) (key : KeyScan) : Token → Option State
  | .blank => some { state with position := .header isElement key }
  | .closeBracket =>
    if isElement then key.complete?.map (fun path => { state with position := .headerEnd path })
    else key.complete?.bind (openHeader? state false)
  | token => (key.token? token).map (fun key => { state with position := .header isElement key })

def key? (state : State) (key : KeyScan) : Token → Option State
  | .blank => some { state with position := .key key }
  | .equals => key.complete?.map (fun parts => { state with position := .value parts .value [] })
  | token => (key.token? token).map (fun key => { state with position := .key key })

def State.step? (state : State) (token : Token) : Option State :=
  match state.position with
  | .lineStart => lineStart? state token
  | .bracket =>
    if token = .openBracket then some { state with position := .header true {} } else header? state false {} token
  | .header isElement key => header? state isElement key token
  | .headerEnd path => if token = .closeBracket then openHeader? state true path else none
  | .key key => key? state key token
  | .value key place stack => (valueStep? place stack token).bind (assignValue? state key)
  | .lineEnd =>
    match token with
    | .blank => some state
    | .newline => some { state with position := .lineStart }
    | _ => none

def runTokens : State → List Token → Option State
  | state, [] => some state
  | state, token :: tokens =>
    match state.step? token with
    | none => none
    | some state => runTokens state tokens

/-- The value that a TOML text stands for, which is always a table. -/
def parse? (text : Text) : Option Value :=
  match (tokens? text).bind (runTokens {}) with
  | some ⟨entries, _, .lineStart⟩ | some ⟨entries, _, .lineEnd⟩ => some (.object (entriesToFields entries))
  | _ => none

end Toml
end IdeExport
