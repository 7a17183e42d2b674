import IdeExport.Proofs.Markup.Lines
import IdeExport.Proofs.Markup.Scanning
/-!
# Reading back what was written

A written element reads back as the element it was, up to the flag of containers that have children.  The lines of
an element are the texts of its tags, the scanner finds the tags in their order whatever the indentation is, and
nesting them gives the element.
-/
namespace IdeExport
namespace Markup

/-! ## Tags of elements -/

namespace Element

mutual

def tags : Element → List Tag
  | ⟨name, attributes, [], false⟩ => [.selfClosing ⟨name, attributes⟩]
  | ⟨name, attributes, children, _⟩ => .opening ⟨name, attributes⟩ :: (tagsOf children ++ [.closing name])

def tagsOf : List Element → List Tag
  | [] => []
  | e :: es => tags e ++ tagsOf es

end

mutual

theorem lines_fragment (depth : Nat) : ∀ e : Element, (e.fragment.lines depth).map (·.2) = e.tags.map Tag.text
  | ⟨name, attributes, [], false⟩ => rfl
  | ⟨name, attributes, [], true⟩ => rfl
  | ⟨name, attributes, child :: children, container⟩ => by
    have hlines := lines_fragments (depth + 1) (child :: children)
    rw [tags, fragment, Fragment.lines, List.map_cons, List.map_append, hlines, List.map_cons, List.map_append]
    · rfl
    all_goals simp

theorem lines_fragments (depth : Nat) : ∀ es : List Element,
    (Fragment.linesOf depth (fragments es)).map (·.2) = (tagsOf es).map Tag.text
  | [] => rfl
  | e :: es => by
    rw [fragments, Fragment.linesOf, tagsOf, List.map_append, List.map_append, lines_fragment depth e,
      lines_fragments depth es]

end

mutual

theorem isWellNamed_tags : ∀ e : Element, e.tags.all Tag.isWellNamed = e.isWellNamed
  | ⟨name, attributes, [], false⟩ => by simp [tags, isWellNamed, areWellNamed, Tag.isWellNamed, TagHead.isWellNamed]
  | ⟨name, attributes, [], true⟩ => by
    simp [tags, tagsOf, isWellNamed, areWellNamed, Tag.isWellNamed, TagHead.isWellNamed]
    grind
  | ⟨name, attributes, child :: children, container⟩ => by
    have hchildren := areWellNamed_tagsOf (child :: children)
    rw [tags, isWellNamed, List.all_cons, List.all_append, hchildren]
    · simp [Tag.isWellNamed, TagHead.isWellNamed]
      grind
    · simp

theorem areWellNamed_tagsOf : ∀ es : List Element, (tagsOf es).all Tag.isWellNamed = areWellNamed es
  | [] => rfl
  | e :: es => by rw [tagsOf, areWellNamed, List.all_append, isWellNamed_tags e, areWellNamed_tagsOf es]

end

end Element

/-! ## Nesting -/

namespace Element

mutual

theorem nest_tags (outer : List OpenElement) (siblings : List Element) (rest : List Tag) : ∀ e : Element,
    nest outer siblings (e.tags ++ rest) = nest outer (siblings ++ [e.visible]) rest
  | ⟨name, attributes, [], false⟩ => rfl
  | ⟨name, attributes, [], true⟩ => by simp [tags, tagsOf, nest, visible, visibleAll]
  | ⟨name, attributes, child :: children, container⟩ => by
    have hchildren :=
      nest_tagsOf (⟨⟨name, attributes⟩, siblings⟩ :: outer) [] (.closing name :: rest) (child :: children)
    rw [List.nil_append] at hchildren
    rw [tags, List.cons_append, nest, List.append_assoc, List.singleton_append, hchildren]
    · simp [nest, visible, visibleAll]
    · simp

theorem nest_tagsOf (outer : List OpenElement) (siblings : List Element) (rest : List Tag) : ∀ es : List Element,
    nest outer siblings (tagsOf es ++ rest) = nest outer (siblings ++ visibleAll es) rest
  | [] => by simp [tagsOf, visibleAll]
  | e :: es => by
    rw [tagsOf, visibleAll, List.append_assoc, nest_tags outer siblings _ e, nest_tagsOf outer _ rest es,
      List.append_assoc]
    rfl

end

end Element

/-! ## Whole texts -/

theorem isSpace_of_mem_flatten {unit : Text} (h : ∀ c ∈ unit, isSpace c = true) (depth : Nat) :
    ∀ c ∈ (List.replicate depth unit).flatten, isSpace c = true := by
  intro c hc
  obtain ⟨piece, hpiece, hmem⟩ := List.mem_flatten.1 hc
  rw [List.eq_of_mem_replicate hpiece] at hmem
  exact h c hmem

namespace Scanner

/-- A line that holds a tag is scanned to that tag, however deep it is. -/
theorem run_writtenLine {unit : Text} (hunit : ∀ c ∈ unit, isSpace c = true) (tags : List Tag) (depth : Nat)
    {tag : Tag} (h : tag.isWellNamed = true) :
    run ⟨.between, tags⟩ (writtenLine unit (depth, tag.text)) = some ⟨.between, tags ++ [tag]⟩ := by
  have hindent := run_between tags _ (isSpace_of_mem_flatten hunit depth)
  rw [writtenLine, run_append, run_append, hindent, Option.bind_some, run_tag tags h]
  rfl

theorem run_writtenLines {unit : Text} (hunit : ∀ c ∈ unit, isSpace c = true) :
    ∀ (lines : List (Nat × Text)) (tags before : List Tag), lines.map (·.2) = tags.map Tag.text →
      tags.all Tag.isWellNamed = true →
      run ⟨.between, before⟩ (lines.flatMap (writtenLine unit)) = some ⟨.between, before ++ tags⟩
  | [], [], before, _, _ => by simp
  | [], _ :: _, _, h, _ => by cases h
  | _ :: _, [], _, h, _ => by cases h
  | (depth, line) :: lines, tag :: tags, before, h, hnamed => by
    obtain ⟨rfl, hlines⟩ : line = tag.text ∧ lines.map (·.2) = tags.map Tag.text := by simpa using h
    rw [List.all_cons, Bool.and_eq_true] at hnamed
    rw [List.flatMap_cons, run_append, run_writtenLine hunit before depth hnamed.1, Option.bind_some,
      run_writtenLines hunit lines tags (before ++ [tag]) hlines hnamed.2, List.append_assoc]
    rfl

end Scanner

theorem eq_space_of_mem_indentUnit {width : Nat} {c : Char} (h : c ∈ indentUnit width) : c = ' ' := by
  unfold indentUnit at h
  split at h
  · exact List.eq_of_mem_replicate h
  · exact List.eq_of_mem_replicate h

theorem isSpace_of_mem_indentUnit (width : Nat) : ∀ c ∈ indentUnit width, isSpace c = true := by
  intro c hc
  rw [eq_space_of_mem_indentUnit hc]
  decide

theorem readElement_lines {unit : Text} (hunit : ∀ c ∈ unit, isSpace c = true) (depth : Nat) {e : Element}
    (h : e.isWellNamed = true) :
    readElement ((e.fragment.lines depth).flatMap (writtenLine unit)) = some e.visible := by
  have hscan : scan ((e.fragment.lines depth).flatMap (writtenLine unit)) = some e.tags := by
    have hnamed : e.tags.all Tag.isWellNamed = true := by rw [e.isWellNamed_tags]; exact h
    have hrun := Scanner.run_writtenLines hunit _ e.tags [] (e.lines_fragment depth) hnamed
    simp only [scan, hrun, List.nil_append]
  have hnest : nest [] [] e.tags = some [e.visible] := by
    have h := e.nest_tags [] [] []
    rw [List.append_nil, List.nil_append] at h
    rw [h]
    rfl
  simp only [readElement, hscan, Option.bind_some, hnest]

/-- **What a builder writes for an element reads back as the element**, whatever the builder has written before and
however deep it is. -/
theorem readElement_pushElement (level width : Nat) (written : Text) {e : Element} (h : e.isWellNamed = true) :
    ∃ printed, (Builder.pushElement ⟨level, indentUnit width, written⟩ e).text = written.reverse ++ printed ∧
      readElement printed = some e.visible :=
  ⟨_, Builder.text_pushFragment _ e.fragment, readElement_lines (isSpace_of_mem_indentUnit width) level h⟩

end Markup
end IdeExport
