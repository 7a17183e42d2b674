import IdeExport.Markup.Element
/-!
# Written lines

What a builder appends for a fragment are the lines of the fragment from top to bottom, each indented by its own
depth (`text_pushFragment`).  Nothing that was written before matters, and of the builder only its level and its
unit of indentation do.
-/
namespace IdeExport
namespace Markup

/-! ## Lines of fragments -/

mutual

/-- The lines of a fragment at a depth, each with its own depth. -/
def Fragment.lines (depth : Nat) : Fragment → List (Nat × Text)
  | .line text => [(depth, text)]
  | .block header body close =>
    (depth, header) :: (Fragment.linesOf (depth + 1) body ++ close.toList.map (fun line => (depth, line)))

def Fragment.linesOf (depth : Nat) : List Fragment → List (Nat × Text)
  | [] => []
  | fragment :: fragments => fragment.lines depth ++ Fragment.linesOf depth fragments

end

def writtenLine (unit : Text) (line : Nat × Text) : Text := (List.replicate line.1 unit).flatten ++ line.2 ++ ['\n']

namespace Builder

/-! ## Builders -/

theorem writtenLine_eq (b : Builder) (line : Text) :
    writtenLine b.unit (b.level, line) = b.indentation ++ line ++ ['\n'] := rfl

theorem text_pushClose (b : Builder) (close : Option Text) :
    (b.pushClose close).text =
      b.text ++ (close.toList.map (fun line => (b.level, line))).flatMap (writtenLine b.unit) := by
  cases close with
  | none => simp [pushClose]
  | some line => simp [pushClose, writtenLine_eq]

mutual

/-- **A builder appends the lines of a fragment**, from its own level on. -/
theorem text_pushFragment (b : Builder) : ∀ fragment,
    (b.pushFragment fragment).text = b.text ++ (fragment.lines b.level).flatMap (writtenLine b.unit)
  | .line text => by simp [pushFragment, Fragment.lines, writtenLine_eq]
  | .block header body close => by
    -- the dedent undoes the indent, so the closing line is as deep as the header
    have hlevel : ((b.pushLine header).indent.pushFragments body).dedent.level = b.level := by
      rw [level_dedent, level_pushFragments]; simp
    have hunit : ((b.pushLine header).indent.pushFragments body).dedent.unit = b.unit := by
      rw [unit_dedent, unit_pushFragments]; simp
    rw [pushFragment, text_pushClose, hlevel, hunit, text_dedent, text_pushFragments _ body, Fragment.lines,
      List.flatMap_cons, List.flatMap_append]
    simp [writtenLine_eq]

theorem text_pushFragments (b : Builder) : ∀ fragments,
    (b.pushFragments fragments).text = b.text ++ (Fragment.linesOf b.level fragments).flatMap (writtenLine b.unit)
  | [] => by simp [pushFragments, Fragment.linesOf]
  | fragment :: fragments => by
    rw [pushFragments, text_pushFragments _ fragments, text_pushFragment b fragment, level_pushFragment,
      unit_pushFragment, Fragment.linesOf, List.flatMap_append, List.append_assoc]

end

end Builder

end Markup
end IdeExport
