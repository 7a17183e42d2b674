import IdeExport.Proofs.Markup.Reader
/-!
# Scanning

The scanner finds a tag wherever its text stands between tags (`run_tag`).  A value is written with no quote in it
and decoded to itself, so the scanner leaves it at the right place and with the right text.
-/
namespace IdeExport
namespace Markup

/-! ## Values -/

theorem decode_cons_of_ne {c : Char} (hamp : c ≠ '&') (hlt : c ≠ '<') (rest : Text) :
    decode (c :: rest) = (decode rest).map (c :: ·) := by
  rw [decode]
  · simp [hamp, hlt]
  all_goals simp [hamp]

theorem decode_entity (c : Char) (rest : Text) : decode (entity c ++ rest) = (decode rest).map (c :: ·) := by
  unfold entity
  split
  · rfl
  · rfl
  · rfl
  · rfl
  · rfl
  · rename_i hamp hlt _ _ _
    exact decode_cons_of_ne hamp hlt rest

/-- **An escaped value is decoded to itself**, whatever entities it seems to hold. -/
theorem decode_escape : ∀ value : Text, decode (escape value) = some value
  | [] => rfl
  | c :: value => by rw [escape_cons, decode_entity, decode_escape value]; rfl

theorem quote_not_mem_entity (c : Char) : '"' ∉ entity c := by
  unfold entity
  split <;> simp_all [eq_comm]

theorem quote_not_mem_escape (value : Text) : '"' ∉ escape value := by
  intro h
  obtain ⟨c, -, hc⟩ := List.mem_flatMap.1 h
  exact quote_not_mem_entity c hc

/-! ## Tags -/

def TagHead.isWellNamed (head : TagHead) : Bool :=
  isWord head.name && head.attributes.all (fun pair => isWord pair.1)

def TagHead.text (head : TagHead) : Text := "<" ++ head.name ++ head.attributes.flatMap Element.attributeText

namespace Tag

def text : Tag → Text
  | .selfClosing head => head.text ++ " />"
  | .opening head => head.text ++ ">"
  | .closing name => "</" ++ name ++ ">"

def isWellNamed : Tag → Bool
  | .selfClosing head | .opening head => head.isWellNamed
  | .closing name => isWord name

end Tag

/-! ## Words -/

theorem isNameChar_of_mem_isWord {name : Text} (h : isWord name = true) : ∀ c ∈ name, isNameChar c = true := by
  simp only [isWord, Bool.and_eq_true, List.all_eq_true] at h
  exact h.2

theorem ne_nil_of_isWord {name : Text} (h : isWord name = true) : ∃ c rest, name = c :: rest := by
  cases name with
  | nil => cases h
  | cons c rest => exact ⟨c, rest, rfl⟩

namespace Scanner

@[simp] theorem run_nil (s : Scanner) : s.run [] = some s := rfl

theorem run_cons (s : Scanner) (c : Char) (text : Text) : s.run (c :: text) = (s.step c).bind (·.run text) := rfl

theorem run_append (s : Scanner) (before after : Text) :
    s.run (before ++ after) = (s.run before).bind (·.run after) :=
  List.foldlM_append

/-- A mode that gathers the characters of a class gathers texts of them. -/
theorem run_gather (mode : Text → ScanMode) (p : Char → Prop) {tags : List Tag}
    (hstep : ∀ gathered c, p c → step ⟨mode gathered, tags⟩ c = some ⟨mode (gathered ++ [c]), tags⟩) :
    ∀ (text gathered : Text), (∀ c ∈ text, p c) → run ⟨mode gathered, tags⟩ text = some ⟨mode (gathered ++ text), tags⟩
  | [], gathered, _ => by simp
  | c :: text, gathered, h => by
    rw [run_cons, hstep gathered c (h c List.mem_cons_self), Option.bind_some,
      run_gather mode p hstep text (gathered ++ [c]) (fun d hd => h d (List.mem_cons_of_mem c hd)), List.append_assoc]
    rfl

theorem run_word (mode : Text → ScanMode) {tags : List Tag} {c : Char} {rest : Text} (h : isWord (c :: rest) = true)
    (hstep : ∀ gathered d, isNameChar d = true → step ⟨mode gathered, tags⟩ d = some ⟨mode (gathered ++ [d]), tags⟩) :
    run ⟨mode [c], tags⟩ rest = some ⟨mode (c :: rest), tags⟩ :=
  run_gather mode (fun d => isNameChar d = true) hstep rest [c]
    (fun d hd => isNameChar_of_mem_isWord h d (List.mem_cons_of_mem c hd))

theorem run_between (tags : List Tag) (text : Text) (h : ∀ c ∈ text, isSpace c = true) :
    run ⟨.between, tags⟩ text = some ⟨.between, tags⟩ :=
  run_gather (fun _ => .between) (fun c => isSpace c = true)
    (fun _ c hc => by simp [step, hc]) text [] h

/-- What a scanner is in the middle of when it may read the end of a tag: a name that nothing followed yet, or a
value. -/
inductive Ready (head : TagHead) : ScanMode → Prop
  | name : head.attributes = [] → Ready head (.name head.name)
  | valueEnded : Ready head (.valueEnded head)

theorem step_of_ready {head : TagHead} {mode : ScanMode} (h : Ready head mode) (tags : List Tag) {c : Char}
    (hc : isNameChar c = false) : step ⟨mode, tags⟩ c = afterPiece ⟨mode, tags⟩ head c := by
  cases h with
  | name hnil => cases head; cases hnil; simp [step, hc]
  | valueEnded => rfl

theorem run_attribute {head : TagHead} {mode : ScanMode} (h : Ready head mode) (tags : List Tag) {key : Text}
    (value : Text) (hkey : isWord key = true) :
    run ⟨mode, tags⟩ (Element.attributeText (key, value))
      = some ⟨.valueEnded { head with attributes := head.attributes ++ [(key, value)] }, tags⟩ := by
  obtain ⟨c, rest, rfl⟩ := ne_nil_of_isWord hkey
  have hc := isNameChar_of_mem_isWord hkey c List.mem_cons_self
  have hspace : step ⟨mode, tags⟩ ' ' = some ⟨.inTag head, tags⟩ := by
    rw [step_of_ready h tags (by decide)]; rfl
  have hfirst : step ⟨.inTag head, tags⟩ c = some ⟨.key head [c], tags⟩ := by
    simp [step, hc, turn]
  have hrest : run ⟨.key head [c], tags⟩ rest = some ⟨.key head (c :: rest), tags⟩ :=
    run_word (.key head) hkey (fun _ d hd => by simp [step, hd, turn])
  have hraw : run ⟨.value head (c :: rest) [], tags⟩ (escape value)
      = some ⟨.value head (c :: rest) (escape value), tags⟩ :=
    run_gather (.value head (c :: rest)) (fun c => c ≠ '"')
      (fun _ d hd => by simp [step, hd, turn]) (escape value) []
      (fun d hd e => quote_not_mem_escape value (e ▸ hd))
  have hend : step ⟨.value head (c :: rest) (escape value), tags⟩ '"'
      = some ⟨.valueEnded { head with attributes := head.attributes ++ [(c :: rest, value)] }, tags⟩ := by
    simp [step, decode_escape, turn]
  calc run ⟨mode, tags⟩ (Element.attributeText (c :: rest, value))
      = run ⟨mode, tags⟩ (' ' :: c :: (rest ++ '=' :: '"' :: (escape value ++ ['"']))) := by
        simp [Element.attributeText]
    _ = run ⟨.key head (c :: rest), tags⟩ ('=' :: '"' :: (escape value ++ ['"'])) := by
        rw [run_cons, hspace, Option.bind_some, run_cons, hfirst, Option.bind_some, run_append, hrest]; rfl
    _ = run ⟨.value head (c :: rest) [], tags⟩ (escape value ++ ['"']) := rfl
    _ = _ := by rw [run_append, hraw, Option.bind_some, run_cons, hend]; rfl

theorem run_attributes (tags : List Tag) : ∀ (attributes : List (Text × Text)) (head : TagHead) {mode : ScanMode},
    Ready head mode → (∀ pair ∈ attributes, isWord pair.1 = true) →
    ∃ mode', run ⟨mode, tags⟩ (attributes.flatMap Element.attributeText) = some ⟨mode', tags⟩ ∧
      Ready { head with attributes := head.attributes ++ attributes } mode'
  | [], head, mode, h, _ => ⟨mode, rfl, by simpa using h⟩
  | (key, value) :: attributes, head, mode, h, hkeys => by
    have hone := run_attribute h tags value (hkeys (key, value) List.mem_cons_self)
    obtain ⟨mode', hrun, hready⟩ := run_attributes tags attributes
      ⟨head.name, head.attributes ++ [(key, value)]⟩ .valueEnded
      (fun pair hpair => hkeys pair (List.mem_cons_of_mem _ hpair))
    refine ⟨mode', ?_, by simpa using hready⟩
    rw [List.flatMap_cons, run_append, hone]
    exact hrun

theorem run_head (tags : List Tag) {head : TagHead} (h : head.isWellNamed = true) :
    ∃ mode, run ⟨.between, tags⟩ head.text = some ⟨mode, tags⟩ ∧ Ready head mode := by
  obtain ⟨name, attributes⟩ := head
  simp only [TagHead.isWellNamed, Bool.and_eq_true, List.all_eq_true] at h
  obtain ⟨hname, hkeys⟩ := h
  obtain ⟨c, rest, rfl⟩ := ne_nil_of_isWord hname
  have hc := isNameChar_of_mem_isWord hname c List.mem_cons_self
  have hslash : c ≠ '/' := by
    rintro rfl
    exact absurd hc (by decide)
  have hfirst : step ⟨.tagBegun, tags⟩ c = some ⟨.name [c], tags⟩ := by
    simp [step, hslash, hc, turn]
  have hrest : run ⟨.name [c], tags⟩ rest = some ⟨.name (c :: rest), tags⟩ :=
    run_word .name hname (fun _ d hd => by simp [step, hd, turn])
  obtain ⟨mode, hrun, hready⟩ := run_attributes tags attributes ⟨c :: rest, []⟩ (.name rfl) hkeys
  refine ⟨mode, ?_, hready⟩
  calc run ⟨.between, tags⟩ (TagHead.text ⟨c :: rest, attributes⟩)
      = run ⟨.between, tags⟩ ('<' :: c :: (rest ++ attributes.flatMap Element.attributeText)) := by
        simp [TagHead.text]
    _ = run ⟨.tagBegun, tags⟩ (c :: (rest ++ attributes.flatMap Element.attributeText)) := rfl
    _ = run ⟨.name (c :: rest), tags⟩ (attributes.flatMap Element.attributeText) := by
        rw [run_cons, hfirst, Option.bind_some, run_append, hrest]; rfl
    _ = some ⟨mode, tags⟩ := hrun

/-- **A scanner reads a tag** and is between tags again. -/
theorem run_tag (tags : List Tag) : ∀ {tag : Tag}, tag.isWellNamed = true →
    run ⟨.between, tags⟩ tag.text = some ⟨.between, tags ++ [tag]⟩
  | .selfClosing head, h => by
    obtain ⟨mode, hrun, hready⟩ := run_head tags h
    have hspace : step ⟨mode, tags⟩ ' ' = some ⟨.inTag head, tags⟩ := by
      rw [step_of_ready hready tags (by decide)]; rfl
    rw [Tag.text, run_append, hrun, Option.bind_some]
    change run ⟨mode, tags⟩ [' ', '/', '>'] = _
    rw [run_cons, hspace]
    rfl
  | .opening head, h => by
    obtain ⟨mode, hrun, hready⟩ := run_head tags h
    have hend : step ⟨mode, tags⟩ '>' = some ⟨.between, tags ++ [.opening head]⟩ := by
      rw [step_of_ready hready tags (by decide)]; rfl
    rw [Tag.text, run_append, hrun, Option.bind_some]
    change run ⟨mode, tags⟩ ['>'] = _
    rw [run_cons, hend]
    rfl
  | .closing name, h => by
    have hname : run ⟨.closing [], tags⟩ name = some ⟨.closing name, tags⟩ :=
      run_gather .closing (fun c => isNameChar c = true)
        (fun _ d hd => by simp [step, hd, turn]) name [] (isNameChar_of_mem_isWord h)
    calc run ⟨.between, tags⟩ ("</" ++ name ++ ">")
        = run ⟨.closing [], tags⟩ (name ++ ['>']) := rfl
      _ = some ⟨.between, tags ++ [.closing name]⟩ := by rw [run_append, hname]; rfl

end Scanner

end Markup
end IdeExport
