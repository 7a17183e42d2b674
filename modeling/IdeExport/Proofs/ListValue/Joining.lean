import IdeExport.ListValue
/-!
# List values side by side

A list value that leaves nothing open ends where a semicolon is put behind it: the items of what follows are the items
that stand there alone (`items_append_semicolon`).  So list values that are joined have the items that they have one by
one, where only the last of them may leave something open (`items_join`).
-/
namespace IdeExport
namespace ListValue

def depthAtEnd (value : Text) : Nat := value.foldl depthAfter 0

/-- A list value whose end nothing reaches over: no backslash and no open bracket. -/
structure IsClosed (value : Text) : Prop where
  noBackslash : value.getLast? ≠ some '\\'
  noBracket : depthAtEnd value = 0

instance (value : Text) : Decidable (IsClosed value) :=
  decidable_of_iff (value.getLast? ≠ some '\\' ∧ depthAtEnd value = 0) ⟨fun h => ⟨h.1, h.2⟩, fun h => ⟨h.1, h.2⟩⟩

theorem pieces_ne_nil (depth : Nat) (value : Text) : pieces depth value ≠ [] := by
  fun_cases pieces depth value with
  | case1 => exact List.cons_ne_nil _ _
  | case2 => exact Text.attach_ne_nil _ _
  | case3 => exact List.cons_ne_nil _ _
  | case4 => exact Text.attach_ne_nil _ _

theorem pieces_cons (depth : Nat) {c : Char} {cs : Text} (h : c = '\\' → cs.head? ≠ some ';') :
    pieces depth (c :: cs) =
      if c = ';' ∧ depth = 0 then [] :: pieces 0 cs else Text.attach c (pieces (depthAfter depth c) cs) := by
  rw [pieces]
  rintro rest rfl rfl
  exact h rfl rfl

theorem getLast?_of_cons {c : Char} {cs : Text} (h : (c :: cs).getLast? ≠ some '\\') : cs.getLast? ≠ some '\\' := by
  intro hcs
  rw [List.getLast?_cons, hcs] at h
  exact h rfl

/-- The pieces on the two sides of a semicolon outside all brackets that no backslash stands before. -/
theorem pieces_append_semicolon {value : Text} {depth : Nat} (rest : Text) (hlast : value.getLast? ≠ some '\\')
    (hdepth : value.foldl depthAfter depth = 0) :
    pieces depth (value ++ ';' :: rest) = pieces depth value ++ pieces 0 rest := by
  fun_induction pieces depth value with
  | case1 depth =>
    have hzero : depth = 0 := hdepth
    rw [List.nil_append, pieces_cons _ (fun h => absurd h (by decide)), if_pos ⟨rfl, hzero⟩, List.singleton_append]
  | case2 depth cs ih =>
    rw [List.cons_append, List.cons_append, pieces, ih (getLast?_of_cons (getLast?_of_cons hlast)) hdepth,
      Text.attach_append _ _ (pieces_ne_nil depth cs)]
  | case3 depth c cs hplain hsplit ih =>
    obtain ⟨rfl, rfl⟩ := hsplit
    rw [List.cons_append, pieces_cons _ (fun h => absurd h (by decide)), if_pos ⟨rfl, rfl⟩,
      ih (getLast?_of_cons hlast) hdepth, List.cons_append]
  | case4 depth c cs hplain hsplit ih =>
    -- a backslash at the end would take the semicolon for its own
    have hplain' : c = '\\' → (cs ++ ';' :: rest).head? ≠ some ';' := by
      rintro rfl hhead
      cases cs with
      | nil => exact hlast rfl
      | cons d ds =>
        obtain rfl : d = ';' := by simpa using hhead
        exact hplain ds rfl rfl
    rw [List.cons_append, pieces_cons _ hplain', if_neg hsplit, ih (getLast?_of_cons hlast) hdepth,
      Text.attach_append _ _ (pieces_ne_nil _ cs)]

theorem items_append_semicolon {value : Text} (h : IsClosed value) (rest : Text) :
    items (value ++ ';' :: rest) = items value ++ items rest := by
  rw [items, pieces_append_semicolon rest h.noBackslash h.noBracket, List.filter_append]
  rfl

/-- **List values that are joined have the items that they have one by one.**  Nothing follows the last of them, so it
may leave something open. -/
theorem items_join : ∀ {values : List Text}, (∀ value ∈ values.dropLast, IsClosed value) →
    items (Text.join ";" values) = allItems values
  | [], _ => rfl
  | [value], _ => by
    rw [Text.join, List.intercalate_singleton, allItems, List.flatMap_singleton]
  | value :: next :: values, h => by
    rw [List.dropLast_cons_cons] at h
    obtain ⟨hvalue, hvalues⟩ := List.forall_mem_cons.1 h
    have hjoin : Text.join ";" (value :: next :: values) = value ++ ';' :: Text.join ";" (next :: values) :=
      Text.join_cons _ _ (List.cons_ne_nil _ _)
    rw [hjoin, items_append_semicolon hvalue, items_join hvalues]
    rfl

theorem allItems_append (values others : List Text) :
    allItems (values ++ others) = allItems values ++ allItems others :=
  List.flatMap_append

theorem allItems_join {values : List Text} (h : ∀ value ∈ values, IsClosed value) :
    allItems [Text.join ";" values] = allItems values := by
  rw [allItems, List.flatMap_singleton, items_join (fun value hvalue => h value ((List.dropLast_subset values) hvalue))]

end ListValue
end IdeExport
