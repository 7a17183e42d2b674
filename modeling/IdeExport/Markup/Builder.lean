import IdeExport.Text.Basic
/-!
# Indented text

A builder writes lines at a level of indentation.  What it writes comes in fragments: a fragment is a line, or
a header with a body one level deeper and perhaps a closing line, and a builder is at the same level after a
fragment as before it.
-/
namespace IdeExport
namespace Markup

/-! ## Fragments -/

inductive Fragment
  | line (text : Text)
  | block (header : Text) (body : List Fragment) (close : Option Text)
  deriving Repr

/-! ## Builders -/

/-- One level of indentation for a width in spaces; widths other than two, three and four give three. -/
def indentUnit (width : Nat) : Text :=
  if width = 2 ∨ width = 4 then List.replicate width ' ' else List.replicate 3 ' '

def descriptorIndent : Text := indentUnit 3

/-- A level, the indentation for one level, and what has been written, last character first. -/
structure Builder where
  level : Nat := 0
  unit : Text := descriptorIndent
  written : Text := []
  deriving Repr

namespace Builder

def text (b : Builder) : Text := b.written.reverse

def indentation (b : Builder) : Text := (List.replicate b.level b.unit).flatten

def pushLine (b : Builder) (line : Text) : Builder :=
  { b with written := '\n' :: (line.reverse ++ (b.indentation.reverse ++ b.written)) }

def indent (b : Builder) : Builder := { b with level := b.level + 1 }

/-- At level zero there is nothing to take back. -/
def dedent (b : Builder) : Builder := { b with level := b.level - 1 }

def pushClose (b : Builder) : Option Text → Builder
  | some line => b.pushLine line
  | none => b

mutual

def pushFragment (b : Builder) : Fragment → Builder
  | .line text => b.pushLine text
  | .block header body close => (pushFragments (b.pushLine header).indent body).dedent.pushClose close

def pushFragments (b : Builder) : List Fragment → Builder
  | [] => b
  | fragment :: fragments => pushFragments (pushFragment b fragment) fragments

end

@[simp] theorem text_pushLine (b : Builder) (line : Text) :
    (b.pushLine line).text = b.text ++ b.indentation ++ line ++ ['\n'] := by
  simp [text, pushLine]

@[simp] theorem level_pushLine (b : Builder) (line : Text) : (b.pushLine line).level = b.level := rfl

@[simp] theorem unit_pushLine (b : Builder) (line : Text) : (b.pushLine line).unit = b.unit := rfl

@[simp] theorem level_indent (b : Builder) : b.indent.level = b.level + 1 := rfl

@[simp] theorem unit_indent (b : Builder) : b.indent.unit = b.unit := rfl

@[simp] theorem text_indent (b : Builder) : b.indent.text = b.text := rfl

@[simp] theorem level_dedent (b : Builder) : b.dedent.level = b.level - 1 := rfl

@[simp] theorem unit_dedent (b : Builder) : b.dedent.unit = b.unit := rfl

@[simp] theorem text_dedent (b : Builder) : b.dedent.text = b.text := rfl

@[simp] theorem unit_pushClose (b : Builder) (close : Option Text) : (b.pushClose close).unit = b.unit := by
  cases close <;> rfl

@[simp] theorem level_pushClose (b : Builder) (close : Option Text) : (b.pushClose close).level = b.level := by
  cases close <;> rfl

mutual

theorem level_pushFragment (b : Builder) : ∀ fragment, (b.pushFragment fragment).level = b.level
  | .line _ => by simp [pushFragment]
  | .block header body close => by
    rw [pushFragment, level_pushClose, level_dedent, level_pushFragments _ body]
    simp

theorem level_pushFragments (b : Builder) : ∀ fragments, (b.pushFragments fragments).level = b.level
  | [] => by rw [pushFragments]
  | fragment :: fragments => by
    rw [pushFragments, level_pushFragments _ fragments, level_pushFragment b fragment]

end

mutual

theorem unit_pushFragment (b : Builder) : ∀ fragment, (b.pushFragment fragment).unit = b.unit
  | .line _ => by simp [pushFragment]
  | .block header body close => by
    rw [pushFragment, unit_pushClose, unit_dedent, unit_pushFragments _ body]
    simp

theorem unit_pushFragments (b : Builder) : ∀ fragments, (b.pushFragments fragments).unit = b.unit
  | [] => by rw [pushFragments]
  | fragment :: fragments => by
    rw [pushFragments, unit_pushFragments _ fragments, unit_pushFragment b fragment]

end

end Builder

end Markup
end IdeExport
