import IdeExport.Proofs.Markup.Scanning
/-!
# Unescaping

Unescaping goes over the whole text once for each kind of entity.  The passes do not get in each other's way: until the
last one every ampersand begins an entity, so a pass finds the entities of its kind and nothing else
(`replaceAll_piecesText`).  On every text that can be decoded they come to what a single scan finds
(`unescape_of_decode`), and an escaped value can be decoded (`unescape_escape`).
-/
namespace IdeExport
namespace Markup

/-! ## Entities -/

/-- The characters that have an entity, in the order in which the passes take them. -/
def escapedChars : List Char := ['<', '>', '"', '\'', '&']

theorem mem_escapedChars {k : Char} : k ∈ escapedChars ↔ k = '<' ∨ k = '>' ∨ k = '"' ∨ k = '\'' ∨ k = '&' := by
  simp [escapedChars]

theorem entity_eq_cons {k : Char} (h : k ∈ escapedChars) :
    entity k = '&' :: (entity k).tail ∧ '&' ∉ (entity k).tail := by
  rcases mem_escapedChars.1 h with rfl | rfl | rfl | rfl | rfl <;> decide

theorem eq_of_prefix_entity {k c : Char} (hk : k ∈ escapedChars) (hc : c ∈ escapedChars) :
    entity k <+: entity c → k = c := by
  rcases mem_escapedChars.1 hk with rfl | rfl | rfl | rfl | rfl <;>
    rcases mem_escapedChars.1 hc with rfl | rfl | rfl | rfl | rfl <;> decide

theorem not_entity_prefix_append {k c : Char} (hk : k ∈ escapedChars) (hc : c ∈ escapedChars) (hne : k ≠ c)
    (rest : Text) : ¬ entity k <+: entity c ++ rest := by
  intro h
  rcases List.prefix_or_prefix_of_prefix h (List.prefix_append (entity c) rest) with hkc | hck
  · exact hne (eq_of_prefix_entity hk hc hkc)
  · exact hne (eq_of_prefix_entity hc hk hck).symm

/-! ## Pieces of a text -/

/-- A character of a value, which stands in the text as its entity or as itself. -/
structure Piece where
  char : Char
  isEntity : Bool
  deriving DecidableEq, Repr

namespace Piece

def text (p : Piece) : Text := if p.isEntity then entity p.char else [p.char]

/-- What makes a text of pieces readable: an ampersand that is no entity could begin one. -/
structure IsProper (p : Piece) : Prop where
  escaped : p.isEntity = true → p.char ∈ escapedChars
  ampersand : p.char = '&' → p.isEntity = true

/-- The piece after a pass for each of some characters. -/
def resolve (kinds : List Char) (p : Piece) : Piece := { p with isEntity := p.isEntity && !kinds.contains p.char }

theorem IsProper.resolve {p : Piece} (h : p.IsProper) {kinds : List Char} (hkinds : '&' ∉ kinds) :
    (p.resolve kinds).IsProper where
  escaped he := h.escaped (Bool.and_eq_true_iff.1 he).1
  ampersand hc := by
    have hchar : p.char = '&' := hc
    simp [Piece.resolve, h.ampersand hchar, hchar, hkinds]

theorem resolve_resolve (p : Piece) (kinds others : List Char) :
    (p.resolve kinds).resolve others = p.resolve (kinds ++ others) := by
  simp [resolve, Bool.and_assoc]

end Piece

def piecesText (pieces : List Piece) : Text := pieces.flatMap Piece.text

/-! ## Passes -/

theorem replaceAll_piece {k : Char} (hk : k ∈ escapedChars) {p : Piece} (hp : p.IsProper) (rest : Text) :
    Text.replaceAll (entity k) [k] (p.text ++ rest) =
      (p.resolve [k]).text ++ Text.replaceAll (entity k) [k] rest := by
  obtain ⟨hentity, -⟩ := entity_eq_cons hk
  obtain ⟨c, isEntity⟩ := p
  cases isEntity with
  | false =>
    -- a character that is no ampersand
    have hc : '&' ∉ [c] := by simpa [eq_comm] using hp.ampersand
    show Text.replaceAll (entity k) [k] ([c] ++ rest) = [c] ++ Text.replaceAll (entity k) [k] rest
    rw [hentity, Text.replaceAll_append_of_not_mem hc]
  | true =>
    have hc : c ∈ escapedChars := hp.escaped rfl
    by_cases hkc : k = c
    · subst hkc
      have hresolve : (Piece.mk k true).resolve [k] = ⟨k, false⟩ := by simp [Piece.resolve]
      rw [hresolve]
      show Text.replaceAll (entity k) [k] (entity k ++ rest) = [k] ++ Text.replaceAll (entity k) [k] rest
      rw [hentity, Text.replaceAll_pattern_append]
    · -- an entity of another kind: it is not the one that is looked for, and none begins inside it
      have hresolve : (Piece.mk c true).resolve [k] = ⟨c, true⟩ := by simp [Piece.resolve, Ne.symm hkc]
      obtain ⟨hother, htail⟩ := entity_eq_cons hc
      have hstarts := not_entity_prefix_append hk hc hkc rest
      rw [hresolve]
      show Text.replaceAll (entity k) [k] (entity c ++ rest) = entity c ++ Text.replaceAll (entity k) [k] rest
      rw [hother, List.cons_append] at hstarts ⊢
      rw [Text.replaceAll_cons_of_not_prefix_cons hstarts, hentity, Text.replaceAll_append_of_not_mem htail,
        List.cons_append]

/-- **A pass turns the entities of its kind into characters** and leaves the others alone. -/
theorem replaceAll_piecesText {k : Char} (hk : k ∈ escapedChars) : ∀ {pieces : List Piece}, (∀ p ∈ pieces, p.IsProper) →
    Text.replaceAll (entity k) [k] (piecesText pieces) = piecesText (pieces.map (·.resolve [k]))
  | [], _ => rfl
  | p :: pieces, h => by
    obtain ⟨hp, hpieces⟩ := List.forall_mem_cons.1 h
    rw [piecesText, List.flatMap_cons, replaceAll_piece hk hp]
    exact congrArg ((p.resolve [k]).text ++ ·) (replaceAll_piecesText hk hpieces)

theorem foldl_replaceAll_piecesText : ∀ {kinds : List Char}, kinds ⊆ escapedChars → '&' ∉ kinds →
    ∀ {pieces : List Piece}, (∀ p ∈ pieces, p.IsProper) →
      kinds.foldl (fun t k => Text.replaceAll (entity k) [k] t) (piecesText pieces) =
        piecesText (pieces.map (·.resolve kinds))
  | [], _, _, pieces, _ => by simp [Piece.resolve]
  | k :: kinds, hkinds, hamp, pieces, h => by
    obtain ⟨hk, hkinds⟩ := List.cons_subset.1 hkinds
    rw [List.mem_cons, not_or] at hamp
    have hproper : ∀ p ∈ pieces.map (·.resolve [k]), p.IsProper := by
      simp only [List.forall_mem_map]
      exact fun p hp => (h p hp).resolve (by simpa using hamp.1)
    rw [List.foldl_cons, replaceAll_piecesText hk h, foldl_replaceAll_piecesText hkinds hamp.2 hproper, List.map_map]
    simp [Function.comp_def, Piece.resolve_resolve]

/-- **All passes together take every piece for its character.** -/
theorem unescape_piecesText {pieces : List Piece} (h : ∀ p ∈ pieces, p.IsProper) :
    unescape (piecesText pieces) = pieces.map (·.char) := by
  have hproper : ∀ p ∈ pieces.map (·.resolve escapedChars.dropLast), p.IsProper := by
    simp only [List.forall_mem_map]
    exact fun p hp => (h p hp).resolve (by decide)
  have hplain : ∀ p ∈ pieces, (p.resolve escapedChars).text = [p.char] := by
    intro p hp
    cases hentity : p.isEntity with
    | false => simp [Piece.resolve, Piece.text, hentity]
    | true => simp [Piece.resolve, Piece.text, (h p hp).escaped hentity]
  calc unescape (piecesText pieces)
      = Text.replaceAll (entity '&') ['&']
          (escapedChars.dropLast.foldl (fun t k => Text.replaceAll (entity k) [k] t) (piecesText pieces)) := rfl
    _ = piecesText (pieces.map (·.resolve escapedChars)) := by
        rw [foldl_replaceAll_piecesText (List.dropLast_subset _) (by decide) h,
          replaceAll_piecesText (by decide) hproper, List.map_map]
        simp [Function.comp_def, Piece.resolve_resolve, escapedChars]
    _ = pieces.map (·.char) := by
        rw [piecesText, List.flatMap_map, List.flatMap_def, List.map_congr_left hplain, ← List.flatMap_def,
          ← List.map_eq_flatMap]

/-! ## Texts that can be decoded -/

/-- A text and a value that proper pieces make. -/
def HasPieces (raw value : Text) : Prop :=
  ∃ pieces : List Piece, (∀ p ∈ pieces, p.IsProper) ∧ raw = piecesText pieces ∧ value = pieces.map (·.char)

/-- One more piece in front of those of the rest. -/
theorem HasPieces.cons {p : Piece} (hp : p.IsProper) {rest value : Text}
    (ih : ∀ {value : Text}, decode rest = some value → HasPieces rest value)
    (h : (decode rest).map (p.char :: ·) = some value) : HasPieces (p.text ++ rest) value := by
  obtain ⟨v, hv, rfl⟩ := Option.map_eq_some_iff.1 h
  obtain ⟨pieces, hpieces, rfl, rfl⟩ := ih hv
  exact ⟨p :: pieces, List.forall_mem_cons.2 ⟨hp, hpieces⟩, rfl, rfl⟩

theorem hasPieces_of_decode (raw : Text) : ∀ {value : Text}, decode raw = some value → HasPieces raw value := by
  fun_induction decode raw with
  | case1 => rintro value ⟨⟩; exact ⟨[], by simp, rfl, rfl⟩
  | case2 rest ih => exact .cons (p := ⟨'&', true⟩) ⟨by decide, by decide⟩ ih
  | case3 rest ih => exact .cons (p := ⟨'<', true⟩) ⟨by decide, by decide⟩ ih
  | case4 rest ih => exact .cons (p := ⟨'>', true⟩) ⟨by decide, by decide⟩ ih
  | case5 rest ih => exact .cons (p := ⟨'"', true⟩) ⟨by decide, by decide⟩ ih
  | case6 rest ih => exact .cons (p := ⟨'\'', true⟩) ⟨by decide, by decide⟩ ih
  | case7 c rest => exact nofun
  | case8 c rest _ _ _ _ _ hc ih =>
    rw [not_or] at hc
    exact .cons (p := ⟨c, false⟩) ⟨nofun, fun e => absurd e hc.1⟩ ih

/-- **The passes find what a single scan finds**, wherever that can read the text. -/
theorem unescape_of_decode {raw value : Text} (h : decode raw = some value) : unescape raw = value := by
  obtain ⟨pieces, hproper, rfl, rfl⟩ := hasPieces_of_decode raw h
  exact unescape_piecesText hproper

/-- **Unescaping undoes escaping**, whatever entities the value seems to hold. -/
theorem unescape_escape (value : Text) : unescape (escape value) = value := unescape_of_decode (decode_escape value)

example : unescape (escape "&lt; is '&amp;lt;'") = "&lt; is '&amp;lt;'".toList := by decide

end Markup
end IdeExport
