import IdeExport.Markup.Entity
import IdeExport.Markup.Builder
/-!
# Elements

A descriptor is a tree of elements with ordered attributes.  Attribute values are kept as they are and escaped
once, when the element is written.
-/
namespace IdeExport
namespace Markup

/-- An element without children is written as one tag that closes itself, unless it is a container. -/
structure Element where
  name : Text
  attributes : List (Text × Text) := []
  children : List Element := []
  container : Bool := false
  deriving Repr

namespace Element

/-! ## Building elements -/

def withAttribute (e : Element) (key value : Text) : Element := { e with attributes := e.attributes ++ [(key, value)] }

def withChildren (e : Element) (children : List Element) : Element := { e with children := e.children ++ children }

def option (key value : Text) : Element := { name := "Option", attributes := [(key, value)] }

/-! ## Writing elements -/

def attributeText (pair : Text × Text) : Text := " " ++ pair.1 ++ "=\"" ++ escape pair.2 ++ "\""

def tagStart (e : Element) : Text := "<" ++ e.name ++ e.attributes.flatMap attributeText

mutual

def fragment : Element → Fragment
  | ⟨name, attributes, children, container⟩ =>
    let start := tagStart ⟨name, attributes, [], container⟩
    match children, container with
    | [], false => .line (start ++ " />")
    | children, _ => .block (start ++ ">") (fragments children) (some ("</" ++ name ++ ">"))

def fragments : List Element → List Fragment
  | [] => []
  | e :: es => fragment e :: fragments es

end

end Element

def Builder.pushElement (b : Builder) (e : Element) : Builder := b.pushFragment e.fragment

def Builder.pushElements (b : Builder) (es : List Element) : Builder := b.pushFragments (Element.fragments es)

end Markup
end IdeExport
