import Mathlib.Data.List.Basic
import Mathlib.Data.List.Induction
import IdeExport.Proofs.Markup.Lines
/-!
# Levels

Where a fragment is written matters only for how far all of its lines are moved to the right.  Its lines have depths of
their own, and a builder adds its level to each of them (`linesOf_add`), so in front of every line stands the
indentation of the builder (`text_pushFragments_eq`).  A builder may have been moved before in any way: what that comes
to is so many steps back, at most to level zero, and then so many deeper (`level_shiftAll`).
-/
namespace IdeExport
namespace Markup

/-! ## Depths -/

def deepened (n : Nat) (line : Nat × Text) : Nat × Text := (n + line.1, line.2)

theorem writtenLine_deepened (unit : Text) (n : Nat) (line : Nat × Text) :
    writtenLine unit (deepened n line) = (List.replicate n unit).flatten ++ writtenLine unit line := by
  simp only [writtenLine, deepened, List.replicate_add, List.flatten_append, List.append_assoc]

mutual

theorem Fragment.lines_add (n depth : Nat) : ∀ fragment : Fragment,
    fragment.lines (n + depth) = (fragment.lines depth).map (deepened n)
  | .line text => rfl
  | .block header body close => by
    rw [Fragment.lines, Fragment.lines, Nat.add_assoc, Fragment.linesOf_add n (depth + 1) body, List.map_cons,
      List.map_append, List.map_map]
    rfl

theorem Fragment.linesOf_add (n depth : Nat) : ∀ fragments : List Fragment,
    Fragment.linesOf (n + depth) fragments = (Fragment.linesOf depth fragments).map (deepened n)
  | [] => rfl
  | fragment :: fragments => by
    rw [Fragment.linesOf, Fragment.linesOf, Fragment.lines_add n depth fragment, Fragment.linesOf_add n depth fragments,
      List.map_append]

end

namespace Builder

/-! ## Fragments one after another -/

theorem pushFragments_eq_foldl : ∀ (fragments : List Fragment) (b : Builder),
    b.pushFragments fragments = fragments.foldl pushFragment b
  | [], b => by rw [pushFragments, List.foldl_nil]
  | fragment :: fragments, b => by rw [pushFragments, List.foldl_cons, pushFragments_eq_foldl fragments]

theorem pushElements_eq_foldl : ∀ (elements : List Element) (b : Builder),
    b.pushElements elements = elements.foldl pushElement b
  | [], b => by rw [pushElements, Element.fragments, pushFragments, List.foldl_nil]
  | element :: elements, b => by
    rw [pushElements, Element.fragments, pushFragments, List.foldl_cons, ← pushElements_eq_foldl elements]
    rfl

/-- The indentation of the builder stands in front of every line, and otherwise the lines are those at level zero. -/
theorem text_pushFragments_eq (b : Builder) (fragments : List Fragment) : (b.pushFragments fragments).text =
    b.text ++ ((Fragment.linesOf 0 fragments).map (writtenLine b.unit)).flatMap (b.indentation ++ ·) := by
  have hdepth : Fragment.linesOf b.level fragments = (Fragment.linesOf 0 fragments).map (deepened b.level) :=
    Fragment.linesOf_add b.level 0 fragments
  rw [text_pushFragments, hdepth, List.flatMap_map, List.flatMap_map]
  simp only [writtenLine_deepened, indentation]

/-! ## Shifts -/

inductive Shift
  | deeper
  | back
  deriving DecidableEq, Repr

def shift (b : Builder) : Shift → Builder
  | .deeper => b.indent
  | .back => b.dedent

def shiftAll (b : Builder) (shifts : List Shift) : Builder := shifts.foldl shift b

/-- So many steps back, and then so many deeper. -/
structure Moves where
  back : Nat := 0
  deeper : Nat := 0
  deriving DecidableEq, Repr

/-- A step back takes back the last step deeper, if there is one. -/
def Moves.followedBy (moves : Moves) : Shift → Moves
  | .deeper => { moves with deeper := moves.deeper + 1 }
  | .back =>
    if moves.deeper = 0 then { moves with back := moves.back + 1 } else { moves with deeper := moves.deeper - 1 }

def Moves.ofShifts (shifts : List Shift) : Moves := shifts.foldl Moves.followedBy {}

def Moves.levelFrom (moves : Moves) (level : Nat) : Nat := level - moves.back + moves.deeper

@[simp] theorem text_shift (b : Builder) (shift : Shift) : (b.shift shift).text = b.text := by
  cases shift <;> rfl

@[simp] theorem unit_shift (b : Builder) (shift : Shift) : (b.shift shift).unit = b.unit := by
  cases shift <;> rfl

theorem text_shiftAll (shifts : List Shift) (b : Builder) : (b.shiftAll shifts).text = b.text := by
  induction shifts generalizing b with
  | nil => rfl
  | cons shift shifts ih => exact (ih (b.shift shift)).trans (text_shift b shift)

theorem unit_shiftAll (shifts : List Shift) (b : Builder) : (b.shiftAll shifts).unit = b.unit := by
  induction shifts generalizing b with
  | nil => rfl
  | cons shift shifts ih => exact (ih (b.shift shift)).trans (unit_shift b shift)

theorem level_shift {b : Builder} {level : Nat} {moves : Moves} (h : b.level = moves.levelFrom level)
    (shift : Shift) : (b.shift shift).level = (moves.followedBy shift).levelFrom level := by
  unfold Moves.levelFrom at h ⊢
  cases shift with
  | deeper =>
    rw [Builder.shift, level_indent, h, Nat.add_assoc]
    rfl
  | back =>
    rw [Builder.shift, level_dedent, h, Moves.followedBy]
    split <;> dsimp only <;> omega

/-- Steps back at level zero are absorbed, and all others count. -/
theorem level_shiftAll (b : Builder) (shifts : List Shift) :
    (b.shiftAll shifts).level = (Moves.ofShifts shifts).levelFrom b.level := by
  induction shifts using List.reverseRecOn with
  | nil => rfl
  | append_singleton shifts shift ih =>
    rw [shiftAll, Moves.ofShifts, List.foldl_concat, List.foldl_concat]
    exact level_shift ih shift

/-! ## Fragments at any level -/

/-- **A builder is at its level again after a fragment, and it has written the lines of the fragment, each at its own
depth from there.**  Fragments and elements are written one after another, and shifts before them only change what
stands in front of all their lines. -/
theorem pushFragment_composes (b : Builder) (fragment : Fragment) (fragments : List Fragment) (elements : List Element)
    (shifts : List Shift) :
    (b.pushFragment fragment).level = b.level ∧
    (b.pushFragment fragment).text =
      b.text ++ (fragment.lines 0).flatMap (fun line => writtenLine b.unit (b.level + line.1, line.2)) ∧
    b.pushFragments fragments = fragments.foldl pushFragment b ∧
    b.pushElements elements = elements.foldl pushElement b ∧
    (b.shiftAll shifts).level = (Moves.ofShifts shifts).levelFrom b.level ∧
    ((b.shiftAll shifts).pushFragments fragments).text =
      b.text ++ ((Fragment.linesOf 0 fragments).map (writtenLine b.unit)).flatMap
        ((b.shiftAll shifts).indentation ++ ·) := by
  refine ⟨level_pushFragment b fragment, ?_, pushFragments_eq_foldl fragments b, pushElements_eq_foldl elements b,
    level_shiftAll b shifts, ?_⟩
  · have hdepth : fragment.lines b.level = (fragment.lines 0).map (deepened b.level) :=
      Fragment.lines_add b.level 0 fragment
    rw [text_pushFragment, hdepth, List.flatMap_map]
    rfl
  · rw [text_pushFragments_eq, text_shiftAll, unit_shiftAll]

end Builder
end Markup
end IdeExport
