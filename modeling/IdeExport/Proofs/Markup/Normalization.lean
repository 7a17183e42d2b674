import IdeExport.Proofs.Markup.ReadBack
import IdeExport.Text.Digits
/-!
# Values as a conforming reader takes them

A conforming reader does not hand on every character of an attribute value.  It first turns the ends of lines of the
whole text into line feeds, and then every tab and line feed that stands in a value into a space; only white space that
is written as a character reference is kept.  Writing makes no character references.  So a reader gets the values that
were put in with their tabs and ends of lines as spaces (`readValues?_pushElement`), and a value comes back as it was
exactly if it has none of these.
-/
namespace IdeExport
namespace Markup

/-! ## Conforming readers -/

/-- The characters that may occur in a text of markup at all.  Surrogates are no characters here to begin with. -/
def isLegalChar (c : Char) : Bool :=
  ['\t', '\n', '\r'].contains c || (0x20 ≤ c.toNat && c.toNat ≠ 0xFFFE && c.toNat ≠ 0xFFFF)

def isLegal (value : Text) : Bool := value.all isLegalChar

def unifyLineEnds : Text → Text
  | '\r' :: '\n' :: rest => '\n' :: unifyLineEnds rest
  | '\r' :: rest => '\n' :: unifyLineEnds rest
  | c :: rest => c :: unifyLineEnds rest
  | [] => []

def numbered? (base : Nat) (digits : Text) : Option Char :=
  let c := Char.ofNat (Text.ofDigits base digits)
  if !digits.isEmpty && digits.all (Text.isDigitOf base) && c.toNat = Text.ofDigits base digits && isLegalChar c then
    some c
  else none

def predefined : List (Text × Char) :=
  [("amp", '&'), ("lt", '<'), ("gt", '>'), ("quot", '"'), ("apos", '\'')]

/-- What a reference stands for, of which the text between `&` and `;` is given. -/
def reference? : Text → Option Char
  | '#' :: 'x' :: digits => numbered? 16 digits
  | '#' :: digits => numbered? 10 digits
  | name => predefined.lookup name

/-- White space that stands in a value as such is a space. -/
def plainSpace (c : Char) : Char := if isSpace c then ' ' else c

/-- The value of a text between quotes.  The first argument is what has been read of a reference that has begun. -/
def normalizeFrom : Option Text → Text → Option Text
  | none, [] => some []
  | some _, [] => none
  | none, c :: rest =>
    if c = '&' then normalizeFrom (some []) rest
    else if c = '<' || !isLegalChar c then none
    else (normalizeFrom none rest).map (plainSpace c :: ·)
  | some name, c :: rest =>
    if c = ';' then (reference? name).bind (fun d => (normalizeFrom none rest).map (d :: ·))
    else normalizeFrom (some (name ++ [c])) rest

def normalize? (raw : Text) : Option Text := normalizeFrom none raw

def readValue? (raw : Text) : Option Text := normalize? (unifyLineEnds raw)

example : readValue? "a&#9;&#xA;&lt;\t\r\n" = some "a\t\n<  ".toList := by decide

/-- The texts between quotes.  The first argument is what has been read of one that has begun. -/
def literalsFrom : Option Text → Text → List Text
  | _, [] => []
  | none, c :: rest => literalsFrom (if c = '"' then some [] else none) rest
  | some raw, c :: rest => if c = '"' then raw :: literalsFrom none rest else literalsFrom (some (raw ++ [c])) rest

def readValues? (text : Text) : Option (List Text) := (literalsFrom none (unifyLineEnds text)).mapM normalize?

/-! ## White space -/

/-- A value with a space for every end of a line and every tab. -/
def spaced : Text → Text
  | '\r' :: '\n' :: rest => ' ' :: spaced rest
  | c :: rest => plainSpace c :: spaced rest
  | [] => []

theorem spaced_eq_map (value : Text) : spaced value = (unifyLineEnds value).map plainSpace := by
  fun_induction unifyLineEnds value with
  | case1 rest ih => rw [spaced, ih]; rfl
  | case2 rest h ih =>
    rw [spaced, ih]
    · rfl
    · exact fun cs _ hcs => h cs hcs
  | case3 c rest h1 h2 ih =>
    rw [spaced, ih]
    · rfl
    · exact fun cs hc _ => h2 hc
  | case4 => rfl

theorem plainSpace_eq_self_iff (c : Char) : plainSpace c = c ↔ c ≠ '\t' ∧ c ≠ '\n' ∧ c ≠ '\r' := by
  unfold plainSpace isSpace
  split
  · rename_i h
    simp only [List.contains_eq_mem, List.mem_cons, List.not_mem_nil, or_false, decide_eq_true_eq] at h
    rcases h with rfl | rfl | rfl | rfl <;> decide
  · rename_i h
    simp_all

theorem spaced_eq_self_iff (value : Text) : spaced value = value ↔ '\t' ∉ value ∧ '\n' ∉ value ∧ '\r' ∉ value := by
  fun_induction spaced value with
  | case1 rest ih => simp
  | case2 c rest h ih =>
    rw [List.cons.injEq, plainSpace_eq_self_iff, ih]
    simp only [List.mem_cons, not_or, ne_eq, eq_comm]
    grind
  | case3 => simp

/-! ## Single values -/

theorem isLegal_unifyLineEnds {value : Text} (h : isLegal value = true) : isLegal (unifyLineEnds value) = true := by
  unfold isLegal at h ⊢
  fun_induction unifyLineEnds value <;> simp_all [show isLegalChar '\n' = true by decide]

theorem unifyLineEnds_append_of_not_mem (rest : Text) : ∀ {t : Text}, '\r' ∉ t →
    unifyLineEnds (t ++ rest) = t ++ unifyLineEnds rest
  | [], _ => rfl
  | c :: t, h => by
    rw [List.mem_cons, not_or] at h
    rw [List.cons_append, unifyLineEnds, unifyLineEnds_append_of_not_mem rest h.2, List.cons_append]
    · exact fun cs hc _ => h.1 hc.symm
    · exact fun hc => h.1 hc.symm

theorem return_not_mem_entity {c : Char} (h : c ≠ '\r') : '\r' ∉ entity c := by
  unfold entity
  split <;> simp_all [eq_comm]

theorem escape_ne_lineFeed_cons {value : Text} (h : ∀ rest, value ≠ '\n' :: rest) :
    ∀ rest, escape value ≠ '\n' :: rest := by
  cases value with
  | nil => exact fun _ => nofun
  | cons c value =>
    intro rest
    rw [escape_cons]
    unfold entity
    split
    all_goals simp
    exact fun hc => absurd hc (fun hc => h value (hc ▸ rfl))

theorem unifyLineEnds_escape (value : Text) : unifyLineEnds (escape value) = escape (unifyLineEnds value) := by
  fun_induction unifyLineEnds value with
  | case1 rest ih =>
    show '\n' :: unifyLineEnds (escape rest) = '\n' :: escape (unifyLineEnds rest)
    rw [ih]
  | case2 rest h ih =>
    show unifyLineEnds ('\r' :: escape rest) = '\n' :: escape (unifyLineEnds rest)
    rw [unifyLineEnds, ih]
    exact escape_ne_lineFeed_cons h
  | case3 c rest h1 h2 ih =>
    rw [escape_cons, escape_cons, unifyLineEnds_append_of_not_mem _ (return_not_mem_entity h2), ih]
  | case4 => rfl

theorem normalizeFrom_entity {c : Char} (h : isLegalChar c = true) (rest : Text) :
    normalizeFrom none (entity c ++ rest) = (normalizeFrom none rest).map (plainSpace c :: ·) := by
  unfold entity
  split
  · rfl
  · rfl
  · rfl
  · rfl
  · rfl
  · rename_i hamp hlt _ _ _
    have hrefused : ¬ (c = '<' || !isLegalChar c) = true := by simpa [h] using hlt
    rw [List.singleton_append, normalizeFrom, if_neg hamp, if_neg hrefused]

theorem normalize?_escape : ∀ {value : Text}, isLegal value = true →
    normalize? (escape value) = some (value.map plainSpace)
  | [], _ => rfl
  | c :: value, h => by
    rw [isLegal, List.all_cons, Bool.and_eq_true] at h
    obtain ⟨hc, hvalue⟩ := h
    have ih := normalize?_escape hvalue
    unfold normalize? at ih ⊢
    rw [escape_cons, normalizeFrom_entity hc, ih, Option.map_some, List.map_cons]

/-- **A value is read with spaces for its tabs and ends of lines.** -/
theorem readValue?_escape {value : Text} (h : isLegal value = true) :
    readValue? (escape value) = some (spaced value) := by
  rw [readValue?, unifyLineEnds_escape, normalize?_escape (isLegal_unifyLineEnds h), spaced_eq_map]

/-! ## Whole documents -/

/-- What stands between the quotes for a value, when the ends of lines have been unified. -/
def rawText (value : Text) : Text := escape (unifyLineEnds value)

theorem normalize?_rawText {value : Text} (h : isLegal value = true) :
    normalize? (rawText value) = some (spaced value) := by
  rw [rawText, normalize?_escape (isLegal_unifyLineEnds h), spaced_eq_map]

theorem mapM_normalize? : ∀ {values : List Text}, (∀ value ∈ values, isLegal value = true) →
    (values.map rawText).mapM normalize? = some (values.map spaced)
  | [], _ => rfl
  | value :: values, h => by
    obtain ⟨hvalue, hvalues⟩ := List.forall_mem_cons.1 h
    rw [List.map_cons, List.mapM_cons, normalize?_rawText hvalue, mapM_normalize? hvalues]
    rfl

/-- A text that brings some texts between quotes to a document, whatever comes after it. -/
def Brings (t : Text) (raws : List Text) : Prop :=
  ∀ rest, literalsFrom none (unifyLineEnds (t ++ rest)) = raws ++ literalsFrom none (unifyLineEnds rest)

namespace Brings

theorem append {s t : Text} {raws others : List Text} (hs : Brings s raws) (ht : Brings t others) :
    Brings (s ++ t) (raws ++ others) := by
  intro rest
  rw [List.append_assoc, hs, ht, List.append_assoc]

theorem plain : ∀ {t : Text}, '"' ∉ t → '\r' ∉ t → Brings t []
  | [], _, _ => fun _ => rfl
  | c :: t, hquote, hreturn => by
    rw [List.mem_cons, not_or] at hquote hreturn
    intro rest
    have hunify : unifyLineEnds (c :: (t ++ rest)) = c :: unifyLineEnds (t ++ rest) :=
      unifyLineEnds_append_of_not_mem (t := [c]) (t ++ rest) (by simpa using hreturn.1)
    rw [List.cons_append, hunify, literalsFrom, if_neg (Ne.symm hquote.1)]
    exact plain hquote.2 hreturn.2 rest

theorem flatMap {α : Type} {text : α → Text} {raws : α → List Text} : ∀ {xs : List α},
    (∀ x ∈ xs, Brings (text x) (raws x)) → Brings (xs.flatMap text) (xs.flatMap raws)
  | [], _ => fun _ => rfl
  | x :: xs, h => by
    obtain ⟨hx, hxs⟩ := List.forall_mem_cons.1 h
    rw [List.flatMap_cons, List.flatMap_cons]
    exact hx.append (flatMap hxs)

end Brings

theorem literalsFrom_some {raw : Text} (rest : Text) : ∀ (gathered : Text), '"' ∉ raw →
    literalsFrom (some gathered) (raw ++ '"' :: rest) = (gathered ++ raw) :: literalsFrom none rest := by
  induction raw with
  | nil => simp [literalsFrom]
  | cons c raw ih =>
    intro gathered h
    rw [List.mem_cons, not_or] at h
    rw [List.cons_append, literalsFrom, if_neg (Ne.symm h.1), ih _ h.2, List.append_assoc]
    rfl

theorem unifyLineEnds_append_quote (rest : Text) (t : Text) :
    unifyLineEnds (t ++ '"' :: rest) = unifyLineEnds t ++ '"' :: unifyLineEnds rest := by
  fun_induction unifyLineEnds t with
  | case1 t ih => rw [List.cons_append, List.cons_append, unifyLineEnds, ih, List.cons_append]
  | case2 t h ih =>
    rw [List.cons_append, unifyLineEnds, ih, List.cons_append]
    intro cs hcs
    cases t with
    | nil => cases hcs
    | cons d t =>
      rw [List.cons_append, List.cons.injEq] at hcs
      exact h t (hcs.1 ▸ rfl)
  | case3 c t h1 h2 ih =>
    rw [List.cons_append, unifyLineEnds, ih, List.cons_append]
    · exact fun _ hc _ => h2 hc
    · exact h2
  | case4 => rfl

theorem brings_escape (value : Text) : Brings ('"' :: (escape value ++ ['"'])) [rawText value] := by
  intro rest
  have hunify : unifyLineEnds ('"' :: (escape value ++ ['"']) ++ rest) =
      '"' :: (rawText value ++ '"' :: unifyLineEnds rest) := by
    rw [List.cons_append, List.append_assoc, List.singleton_append]
    show '"' :: unifyLineEnds (escape value ++ '"' :: rest) = _
    rw [unifyLineEnds_append_quote, unifyLineEnds_escape, rawText]
  have hquote : '"' ∉ rawText value := quote_not_mem_escape (unifyLineEnds value)
  rw [hunify, literalsFrom, if_pos rfl, literalsFrom_some _ _ hquote]
  rfl

theorem Brings.word {name : Text} (h : isWord name = true) : Brings name [] := by
  have hchars := isNameChar_of_mem_isWord h
  exact .plain (fun hc => absurd (hchars _ hc) (by decide)) (fun hc => absurd (hchars _ hc) (by decide))

theorem brings_attributeText {pair : Text × Text} (h : isWord pair.1 = true) :
    Brings (Element.attributeText pair) [rawText pair.2] := by
  have htext : Element.attributeText pair =
      " ".toList ++ (pair.1 ++ ("=".toList ++ '"' :: (escape pair.2 ++ ['"']))) := by
    simp [Element.attributeText]
  rw [htext]
  have hspace : Brings " " [] := .plain (by decide) (by decide)
  have hequals : Brings "=" [] := .plain (by decide) (by decide)
  exact hspace.append ((Brings.word h).append (hequals.append (brings_escape _)))

theorem brings_head {head : TagHead} (h : head.isWellNamed = true) :
    Brings head.text (head.attributes.map (fun pair => rawText pair.2)) := by
  rw [TagHead.isWellNamed, Bool.and_eq_true, List.all_eq_true] at h
  have hattributes : Brings (head.attributes.flatMap Element.attributeText)
      (head.attributes.flatMap (fun pair => [rawText pair.2])) :=
    .flatMap (fun pair hpair => brings_attributeText (h.2 pair hpair))
  rw [← List.map_eq_flatMap] at hattributes
  have hstart : Brings "<" [] := .plain (by decide) (by decide)
  exact (hstart.append (Brings.word h.1)).append hattributes

def Tag.values : Tag → List Text
  | .selfClosing head | .opening head => head.attributes.map (·.2)
  | .closing _ => []

theorem brings_tag : ∀ {tag : Tag}, tag.isWellNamed = true →
    Brings tag.text (tag.values.map rawText)
  | .selfClosing head, h => by
    have hend : Brings " />" [] := .plain (by decide) (by decide)
    simpa [Tag.values, Tag.text, Function.comp_def] using (brings_head h).append hend
  | .opening head, h => by
    have hend : Brings ">" [] := .plain (by decide) (by decide)
    simpa [Tag.values, Tag.text, Function.comp_def] using (brings_head h).append hend
  | .closing name, h => by
    have hstart : Brings "</" [] := .plain (by decide) (by decide)
    have hend : Brings ">" [] := .plain (by decide) (by decide)
    exact (hstart.append (Brings.word h)).append hend

theorem brings_writtenLine (width depth : Nat) {tag : Tag} (h : tag.isWellNamed = true) :
    Brings (writtenLine (indentUnit width) (depth, tag.text))
      (tag.values.map rawText) := by
  have hspaces : ∀ c ∈ (List.replicate depth (indentUnit width)).flatten, c = ' ' := by
    intro c hc
    obtain ⟨unit, hunit, hmem⟩ := List.mem_flatten.1 hc
    rw [List.eq_of_mem_replicate hunit] at hmem
    exact eq_space_of_mem_indentUnit hmem
  have hindent : Brings (List.replicate depth (indentUnit width)).flatten [] :=
    .plain (fun hc => absurd (hspaces _ hc) (by decide)) (fun hc => absurd (hspaces _ hc) (by decide))
  have hend : Brings ['\n'] [] := .plain (by decide) (by decide)
  simpa [writtenLine] using (hindent.append (brings_tag h)).append hend

theorem brings_writtenLines (width : Nat) : ∀ {lines : List (Nat × Text)} {tags : List Tag},
    lines.map (·.2) = tags.map Tag.text → tags.all Tag.isWellNamed = true →
      Brings (lines.flatMap (writtenLine (indentUnit width)))
        ((tags.flatMap Tag.values).map rawText)
  | [], [], _, _ => fun _ => rfl
  | [], _ :: _, h, _ => by cases h
  | _ :: _, [], h, _ => by cases h
  | (depth, line) :: lines, tag :: tags, h, hnamed => by
    obtain ⟨rfl, hlines⟩ : line = tag.text ∧ lines.map (·.2) = tags.map Tag.text := by simpa using h
    rw [List.all_cons, Bool.and_eq_true] at hnamed
    rw [List.flatMap_cons, List.flatMap_cons, List.map_append]
    exact (brings_writtenLine width depth hnamed.1).append (brings_writtenLines width hlines hnamed.2)

namespace Element

mutual

def attributeValues : Element → List Text
  | ⟨_, attributes, children, _⟩ => attributes.map (·.2) ++ attributeValuesOf children

def attributeValuesOf : List Element → List Text
  | [] => []
  | e :: es => attributeValues e ++ attributeValuesOf es

end

mutual

theorem attributeValues_tags : ∀ e : Element, e.tags.flatMap Tag.values = e.attributeValues
  | ⟨name, attributes, [], false⟩ => by simp [tags, attributeValues, attributeValuesOf, Tag.values]
  | ⟨name, attributes, [], true⟩ => by simp [tags, tagsOf, attributeValues, attributeValuesOf, Tag.values]
  | ⟨name, attributes, child :: children, container⟩ => by
    have hchildren := attributeValues_tagsOf (child :: children)
    rw [tags, attributeValues, List.flatMap_cons, List.flatMap_append, hchildren]
    · simp [Tag.values]
    · simp

theorem attributeValues_tagsOf : ∀ es : List Element, (tagsOf es).flatMap Tag.values = attributeValuesOf es
  | [] => rfl
  | e :: es => by rw [tagsOf, attributeValuesOf, List.flatMap_append, attributeValues_tags e, attributeValues_tagsOf es]

end

end Element

theorem readValues?_lines (width depth : Nat) {e : Element} (h : e.isWellNamed = true)
    (hlegal : ∀ value ∈ e.attributeValues, isLegal value = true) :
    readValues? ((e.fragment.lines depth).flatMap (writtenLine (indentUnit width))) =
      some (e.attributeValues.map spaced) := by
  have hnamed : e.tags.all Tag.isWellNamed = true := by rw [e.isWellNamed_tags]; exact h
  have hliterals := brings_writtenLines width (e.lines_fragment depth) hnamed []
  have hnothing : literalsFrom none (unifyLineEnds []) = [] := rfl
  rw [List.append_nil, e.attributeValues_tags, hnothing, List.append_nil] at hliterals
  rw [readValues?, hliterals, mapM_normalize? hlegal]

/-- **A reader gets the values of an element back with spaces for their tabs and ends of lines**, so it gets exactly
those back as they were that have none. -/
theorem readValues?_pushElement (level width : Nat) (written : Text) {e : Element}
    (hlegal : ∀ value ∈ e.attributeValues, isLegal value = true) :
    (∀ value ∈ e.attributeValues, readValue? (escape value) = some (spaced value) ∧
      (readValue? (escape value) = some value ↔ '\t' ∉ value ∧ '\n' ∉ value ∧ '\r' ∉ value)) ∧
    (e.isWellNamed = true →
      ∃ printed, (Builder.pushElement ⟨level, indentUnit width, written⟩ e).text = written.reverse ++ printed ∧
        readValues? printed = some (e.attributeValues.map spaced)) := by
  refine ⟨fun value hvalue => ?_, fun hnamed => ?_⟩
  · have hread := readValue?_escape (hlegal value hvalue)
    exact ⟨hread, by rw [hread, Option.some.injEq, spaced_eq_self_iff]⟩
  · exact ⟨_, Builder.text_pushFragment _ e.fragment, readValues?_lines width level hnamed hlegal⟩

theorem not_forall_readValue?_escape :
    ¬ ∀ e : Element, (∀ value ∈ e.attributeValues, isLegal value = true) →
      ∀ value ∈ e.attributeValues, readValue? (escape value) = some value := by
  intro h
  exact absurd (h (.option "title" "a\tb") (by decide) "a\tb" (by decide)) (by decide)

/-- Ends of lines of all kinds, a tab, and what looks like a reference to one. -/
def brokenLines : Element :=
  { name := "Add", attributes := [("option", "-DMSG=\"a\tb\"\r\nc\r"), ("before", "&#9;\n")],
    children := [.option "title" "<x>\r\r\n"] }

theorem readValues?_pushElement_brokenLines :
    (∀ value ∈ brokenLines.attributeValues, isLegal value = true) ∧ brokenLines.isWellNamed = true ∧
    readValue? (escape "<x>\r\r\n") = some "<x>  ".toList ∧
    ∃ printed, (Builder.pushElement ⟨1, indentUnit 3, ['\n', 'x']⟩ brokenLines).text = ['x', '\n'] ++ printed ∧
      readValues? printed = some ["-DMSG=\"a b\" c ".toList, "&#9; ".toList, "<x>  ".toList] := by
  have hlegal : ∀ value ∈ brokenLines.attributeValues, isLegal value = true := by decide
  have hnamed : brokenLines.isWellNamed = true := by decide
  obtain ⟨hvalues, hdocument⟩ := readValues?_pushElement 1 3 ['\n', 'x'] hlegal
  obtain ⟨printed, htext, hread⟩ := hdocument hnamed
  exact ⟨hlegal, hnamed, (hvalues "<x>\r\r\n" (by decide)).1, printed, htext, hread⟩

end Markup
end IdeExport
