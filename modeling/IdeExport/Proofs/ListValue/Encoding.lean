import IdeExport.Proofs.ListValue.Joining
/-!
# Packing items into a list value

Items are packed by a backslash in front of each of their semicolons and a semicolon between neighbours.  Read at any
bracket depth, a packed item is one piece (`pieces_encodeItem`), and packing an item neither closes nor opens anything
(`isClosed_encodeItem`).  So the items of the packed value are the items that were packed (`items_encode`).
-/
namespace IdeExport

namespace Text

theorem replaceAll_cons (sep : Char) (new : Text) (c : Char) (cs : Text) :
    replaceAll [sep] new (c :: cs) = (if c = sep then new else [c]) ++ replaceAll [sep] new cs := by
  by_cases h : c = sep
  · simp [replaceAll, replaceFrom, h]
  · have hne : sep ≠ c := Ne.symm h
    simp [replaceAll, replaceFrom, h, hne]

end Text

namespace ListValue

/-- An item with a backslash in front of each semicolon. -/
def encodeItem (item : Text) : Text := Text.replaceAll ";" "\\;" item

def encode (xs : List Text) : Text := Text.join ";" (xs.map encodeItem)

/-! ## A single item -/

theorem encodeItem_semicolon (cs : Text) : encodeItem (';' :: cs) = '\\' :: ';' :: encodeItem cs :=
  Text.replaceAll_cons ';' _ ';' cs

theorem encodeItem_cons {c : Char} (h : c ≠ ';') (cs : Text) : encodeItem (c :: cs) = c :: encodeItem cs := by
  have hcons := Text.replaceAll_cons ';' "\\;".toList c cs
  rwa [if_neg h] at hcons

theorem head?_encodeItem (item : Text) : (encodeItem item).head? ≠ some ';' := by
  cases item with
  | nil => exact nofun
  | cons c cs =>
    by_cases h : c = ';'
    · subst h
      simp [encodeItem_semicolon]
    · simp [encodeItem_cons h, h]

/-- **A packed item is one piece.** -/
theorem pieces_encodeItem : ∀ (item : Text) (depth : Nat), pieces depth (encodeItem item) = [item]
  | [], _ => rfl
  | c :: cs, depth => by
    by_cases h : c = ';'
    · subst h
      rw [encodeItem_semicolon, pieces, pieces_encodeItem cs, Text.attach]
    -- a backslash of the item does not reach the semicolon behind it, which has got a backslash of its own
    · rw [encodeItem_cons h, pieces_cons _ (fun _ => head?_encodeItem cs), if_neg (fun hsplit => h hsplit.1),
        pieces_encodeItem cs, Text.attach]

theorem items_encodeItem {item : Text} (h : item ≠ []) : items (encodeItem item) = [item] := by
  simp [items, pieces_encodeItem, h]

theorem foldl_depthAfter_encodeItem : ∀ (item : Text) (depth : Nat),
    (encodeItem item).foldl depthAfter depth = item.foldl depthAfter depth
  | [], _ => rfl
  | c :: cs, depth => by
    by_cases h : c = ';'
    · subst h
      rw [encodeItem_semicolon]
      exact foldl_depthAfter_encodeItem cs depth
    · rw [encodeItem_cons h]
      exact foldl_depthAfter_encodeItem cs (depthAfter depth c)

theorem getLast?_encodeItem : ∀ item : Text, (encodeItem item).getLast? = item.getLast?
  | [] => rfl
  | c :: cs => by
    by_cases h : c = ';'
    · subst h
      rw [encodeItem_semicolon, List.getLast?_cons, List.getLast?_cons, getLast?_encodeItem cs, List.getLast?_cons]
      rfl
    · rw [encodeItem_cons h, List.getLast?_cons, getLast?_encodeItem cs, List.getLast?_cons]

theorem isClosed_encodeItem {item : Text} (h : IsClosed item) : IsClosed (encodeItem item) where
  noBackslash := by
    rw [getLast?_encodeItem]
    exact h.noBackslash
  noBracket := (foldl_depthAfter_encodeItem item 0).trans h.noBracket

/-! ## Many items -/

theorem allItems_map_encodeItem : ∀ {xs : List Text}, (∀ x ∈ xs, x ≠ []) → allItems (xs.map encodeItem) = xs
  | [], _ => rfl
  | x :: xs, h => by
    obtain ⟨hx, hxs⟩ := List.forall_mem_cons.1 h
    show items (encodeItem x) ++ allItems (xs.map encodeItem) = x :: xs
    rw [items_encodeItem hx, allItems_map_encodeItem hxs, List.singleton_append]

/-- **Items that are packed are the items of the list value**, if none is empty and none but the last ends in a
backslash or leaves a bracket open. -/
theorem items_encode (xs : List Text) (hne : ∀ x ∈ xs, x ≠ []) (hclosed : ∀ x ∈ xs.dropLast, IsClosed x) :
    items (encode xs) = xs := by
  have hpacked : ∀ value ∈ (xs.map encodeItem).dropLast, IsClosed value := by
    intro value hvalue
    rw [← List.map_dropLast] at hvalue
    obtain ⟨x, hx, rfl⟩ := List.mem_map.1 hvalue
    exact isClosed_encodeItem (hclosed x hx)
  rw [encode, items_join hpacked, allItems_map_encodeItem hne]

/-- Semicolons next to backslashes and inside brackets, a stray bracket, and an open end. -/
def awkwardItems : List Text := ["a\\;b", "x[;]y;", "]z\\\\c", "w[\\"]

theorem items_encode_awkwardItems :
    (∀ x ∈ awkwardItems, x ≠ []) ∧ (∀ x ∈ awkwardItems.dropLast, IsClosed x) ∧
    encode awkwardItems = "a\\\\;b;x[\\;]y\\;;]z\\\\c;w[\\".toList ∧
    items (encode awkwardItems) = awkwardItems := by
  have hne : ∀ x ∈ awkwardItems, x ≠ [] := by decide
  have hclosed : ∀ x ∈ awkwardItems.dropLast, IsClosed x := by decide
  exact ⟨hne, hclosed, by decide, items_encode awkwardItems hne hclosed⟩

end ListValue
end IdeExport
