import IdeExport.Proofs.Text.Occurrences
import IdeExport.Proofs.Toml.Strings
import IdeExport.Snapshot.Span
/-!
# Fields called name

Where a search for a name ends up in a text of lines that each hold one field.  A field is found if its key is `name`
and its value is the name (`fieldOffsets_of_isRow`): all other quotes of such a line end the value or belong to it, and
those that belong to it have a backslash before them.
-/
namespace IdeExport

open Text (byteSize occurrences)

namespace Toml

def entry (key value : Text) : Text := key ++ " = " ++ quoted value

/-- A quote of an entry is one of the two around the value, unless a backslash stands before it. -/
theorem eq_of_entry_eq_append_quote {key value before after : Text} (hkey : '"' ∉ key)
    (h : entry key value = before ++ '"' :: after) (hlast : before.getLast? ≠ some '\\') :
    before = key ++ " = " ∧ after = escape value ++ "\"" ∨ after = [] := by
  have hentry : key ++ " = " ++ '"' :: (escape value ++ "\"") = before ++ '"' :: after := h
  obtain ⟨more, rfl, hmore⟩ | ⟨more, hbefore, hmore⟩ := List.append_eq_append_iff.1 hentry
  · cases more with
    | nil => exact Or.inl ⟨List.append_nil _, (List.cons.inj hmore).2.symm⟩
    | cons c more =>
      right
      obtain ⟨rfl, hvalue⟩ := List.cons.inj hmore
      obtain ⟨closing, rfl, hclosing⟩ | ⟨inside, hinside, hclosing⟩ := List.append_eq_append_iff.1 hvalue
      · cases closing with
        | nil => exact (List.cons.inj hclosing).2.symm
        | cons d closing => simp at hclosing
      · cases inside with
        | nil => exact (List.cons.inj hclosing).2
        | cons d inside =>
          obtain ⟨rfl, -⟩ := List.cons.inj hclosing
          have hguard := quoteAfterBackslash_escape value more inside hinside
          exact absurd (by simp [List.getLast?_append, List.getLast?_cons, hguard]) hlast
  · cases more with
    | nil => exact Or.inl ⟨(hbefore.trans (List.append_nil _)).symm, (List.cons.inj hmore).2⟩
    | cons c more =>
      obtain ⟨rfl, -⟩ := List.cons.inj hmore
      have hquote : '"' ∈ key ++ " = ".toList := hbefore ▸ List.mem_append_right _ List.mem_cons_self
      exact absurd hquote (by simpa using hkey)

/-- The value of an entry is found in quotes only where it stands, whatever comes before the quotes. -/
theorem of_infix_entry {key value field name : Text} (hkey : '"' ∉ key) (hname : IsLiteral name) {last : Char}
    (hfield : field.getLast? = some last) (hlast : last ≠ '\\') (h : field ++ Span.quoted name <:+: entry key value) :
    field <:+ key ++ " = " ∧ escape value = name := by
  have hquote : '"' ∉ name := fun hmem => (hname _ hmem).1 rfl
  have hbackslash : '\\' ∉ name := fun hmem => (hname _ hmem).2.1 rfl
  obtain ⟨before, after, hentry⟩ := h
  have hat : entry key value = before ++ field ++ '"' :: (name ++ '"' :: after) := by
    rw [← hentry, Span.quoted]
    simp
  have hbeforeLast : (before ++ field).getLast? ≠ some '\\' := by
    rw [List.getLast?_append, hfield]
    simpa using hlast
  obtain ⟨hbefore, hvalue⟩ | hnil := eq_of_entry_eq_append_quote hkey hat hbeforeLast
  · refine ⟨⟨before, hbefore⟩, ?_⟩
    obtain ⟨more, hwritten, hmore⟩ | ⟨more, rfl, hmore⟩ := List.append_eq_append_iff.1 hvalue
    · cases more with
      | nil => exact hwritten.trans (List.append_nil _)
      | cons c more =>
        obtain ⟨rfl, -⟩ := List.cons.inj hmore
        have hguard := quoteAfterBackslash_escape value name more hwritten
        exact absurd (List.mem_of_getLast? hguard) hbackslash
    · cases more with
      | nil => exact (List.append_nil _).symm
      | cons c more =>
        obtain ⟨rfl, -⟩ := List.cons.inj hmore
        exact absurd (List.mem_append_right _ List.mem_cons_self) hquote
  · simp at hnil

end Toml

namespace Span

variable {name : Text}

/-! ## Fields and lines -/

theorem field_append_quoted_ne_nil (field name : Text) : field ++ quoted name ≠ [] := by
  simp [quoted]

theorem byteSize_quoted (name : Text) : byteSize (quoted name) = byteSize name + 2 := by
  rw [quoted, Text.byteSize_append, Text.byteSize_append, show byteSize "\"" = 1 from rfl]
  omega

theorem mem_fieldOffsets {source : Text} {o : Nat} :
    o ∈ fieldOffsets name source ↔ ∃ field ∈ nameFields, o ∈ offsetsAfter field name source := List.mem_flatMap

theorem fieldOffsets_eq_nil_iff {source : Text} :
    fieldOffsets name source = [] ↔ ∀ field ∈ nameFields, ¬ field ++ quoted name <:+: source := by
  simp only [fieldOffsets, offsetsAfter, List.flatMap_eq_nil_iff, List.map_eq_nil_iff,
    Text.occurrences_eq_nil_iff (field_append_quoted_ne_nil _ _)]

theorem nameOffsets_of_ne_nil {source : Text} (h : fieldOffsets name source ≠ []) :
    nameOffsets name source = fieldOffsets name source := by
  unfold nameOffsets
  split
  · rename_i hnil
    exact absurd hnil h
  · rfl

theorem lt_byteSize_of_mem_fieldOffsets {source : Text} {o : Nat} (h : o ∈ fieldOffsets name source) :
    o < byteSize source := by
  obtain ⟨field, -, hoffset⟩ := mem_fieldOffsets.1 h
  obtain ⟨place, hplace, rfl⟩ := List.mem_map.1 hoffset
  have hle := (Text.occursAt_of_mem_occurrences (field_append_quoted_ne_nil field name) place hplace).add_byteSize_le
  rw [Text.byteSize_append, byteSize_quoted] at hle
  omega

theorem newline_notMem_field_append_quoted (hname : Toml.IsLiteral name) :
    ∀ field ∈ nameFields, '\n' ∉ field ++ quoted name := by
  have hnewline : '\n' ∉ name := fun hmem => absurd (hname _ hmem).2.2 (by decide)
  intro field hfield
  have hfield' : '\n' ∉ field := by
    revert field
    decide
  simp [quoted, hfield', hnewline]

/-- A search goes line by line. -/
theorem mem_fieldOffsets_append_newline (hname : Toml.IsLiteral name) {line rest : Text} {o : Nat} :
    o ∈ fieldOffsets name (line ++ '\n' :: rest) ↔
      o ∈ fieldOffsets name line ∨ ∃ place ∈ fieldOffsets name rest, byteSize line + 1 + place = o := by
  have hsplit : ∀ field ∈ nameFields, o ∈ offsetsAfter field name (line ++ '\n' :: rest) ↔
      o ∈ offsetsAfter field name line ∨ ∃ place ∈ offsetsAfter field name rest, byteSize line + 1 + place = o := by
    intro field hfield
    have hnewline := newline_notMem_field_append_quoted hname field hfield
    simp only [offsetsAfter, Text.occurrences_append_sep (field_append_quoted_ne_nil field name) hnewline,
      List.map_append, List.map_map, List.mem_append, List.mem_map, exists_exists_and_eq_and, Function.comp_apply,
      show '\n'.utf8Size = 1 from rfl, Nat.add_assoc]
  simp only [mem_fieldOffsets]
  constructor
  · rintro ⟨field, hfield, ho⟩
    obtain ho | ⟨place, hplace, ho⟩ := (hsplit field hfield).1 ho
    · exact Or.inl ⟨field, hfield, ho⟩
    · exact Or.inr ⟨place, ⟨field, hfield, hplace⟩, ho⟩
  · rintro (⟨field, hfield, ho⟩ | ⟨place, ⟨field, hfield, hplace⟩, ho⟩)
    · exact ⟨field, hfield, (hsplit field hfield).2 (Or.inl ho)⟩
    · exact ⟨field, hfield, (hsplit field hfield).2 (Or.inr ⟨place, hplace, ho⟩)⟩

/-! ## Rows -/

/-- A line that holds a field or has no quotes.  No key but `name` itself ends like it. -/
inductive IsRow : Text → Prop
  | heading {line : Text} (hquote : '"' ∉ line) : IsRow line
  | entry {key : Text} (hquote : '"' ∉ key) (hname : "name" <:+ key → key = "name") (value : Text) :
    IsRow (Toml.entry key value)

abbrev nameLine (name : Text) : Text := Toml.entry "name" name

theorem nameLine_eq (hname : Toml.IsLiteral name) : nameLine name = "name = " ++ quoted name := by
  rw [nameLine, Toml.entry, Toml.quoted, Toml.escape_of_isLiteral hname]
  rfl

theorem byteSize_nameLine_ge (name : Text) : 8 ≤ byteSize (nameLine name) := by
  rw [nameLine, Toml.entry, Toml.quoted]
  simp only [Text.byteSize_append, show byteSize "name" = 4 from rfl, show byteSize " = " = 3 from rfl,
    show byteSize "\"" = 1 from rfl]
  omega

theorem nameLine_inj (hname : Toml.IsLiteral name) {value : Text} :
    nameLine value = nameLine name ↔ value = name := by
  refine ⟨fun h => ?_, congrArg nameLine⟩
  have hescape : Toml.escape value = Toml.escape name := by
    simpa only [nameLine, Toml.entry, Toml.quoted, List.append_assoc, List.append_cancel_left_eq,
      List.append_cancel_right_eq] using h
  rw [Toml.escape_of_isLiteral hname] at hescape
  exact (Toml.escape_eq_iff hname).1 hescape

theorem ne_nameLine_of_head? {line : Text} (h : line.head? ≠ some 'n') : line ≠ nameLine name := by
  rintro rfl
  exact h rfl

/-- In a row a name is found only if the row gives that name. -/
theorem eq_nameLine_of_infix {line field : Text} (hrow : IsRow line) (hname : Toml.IsLiteral name)
    (hfield : field ∈ nameFields) (h : field ++ quoted name <:+: line) : field = "name = " ∧ line = nameLine name := by
  cases hrow with
  | heading hquote =>
    have hmem : '"' ∈ field ++ quoted name := by simp [quoted]
    exact absurd (h.subset hmem) hquote
  | @entry key hquote hkey value =>
    have hplace : ∀ last : Char, field.getLast? = some last → last ≠ '\\' →
        (∃ before, before ++ field = key ++ " = ") ∧ Toml.escape value = name :=
      fun _ hlast hne => Toml.of_infix_entry hquote hname hlast hne h
    simp only [nameFields, List.mem_cons, List.not_mem_nil, or_false] at hfield
    rcases hfield with rfl | rfl | rfl | rfl
    · obtain ⟨⟨before, hbefore⟩, hvalue⟩ := hplace ' ' (by decide) (by decide)
      have hsuffix : before ++ "name" = key := by
        have happend : before ++ "name" ++ " = ".toList = key ++ " = " := by
          rw [List.append_assoc]
          exact hbefore
        exact List.append_cancel_right happend
      rw [Toml.escape_eq_iff hname] at hvalue
      exact ⟨rfl, by rw [hkey ⟨before, hsuffix⟩, hvalue]⟩
    · obtain ⟨⟨before, hbefore⟩, -⟩ := hplace '=' (by decide) (by decide)
      have hlast := congrArg List.getLast? hbefore
      simp at hlast
    · obtain ⟨⟨before, hbefore⟩, -⟩ := hplace ' ' (by decide) (by decide)
      have hmem : '"' ∈ key ++ " = ".toList := hbefore ▸ List.mem_append_right _ (by decide)
      exact absurd hmem (by simpa using hquote)
    · obtain ⟨⟨before, hbefore⟩, -⟩ := hplace ':' (by decide) (by decide)
      have hlast := congrArg List.getLast? hbefore
      simp at hlast

theorem fieldOffsets_of_isRow {line : Text} (hrow : IsRow line) (hname : Toml.IsLiteral name) :
    fieldOffsets name line = if line = nameLine name then [8] else [] := by
  have hnone : ∀ field ∈ nameFields, field ≠ "name = " ∨ line ≠ nameLine name → offsetsAfter field name line = [] := by
    intro field hfield hne
    rw [offsetsAfter, List.map_eq_nil_iff, Text.occurrences_eq_nil_iff (field_append_quoted_ne_nil field name)]
    intro h
    obtain ⟨hname', hline⟩ := eq_nameLine_of_infix hrow hname hfield h
    exact hne.elim (fun hne => hne hname') (fun hne => hne hline)
  split
  · rename_i hline
    have hwhole : offsetsAfter "name = " name line = [8] := by
      have hfound := Text.occurrences_pattern_append (field_append_quoted_ne_nil "name = " name) []
      rw [List.append_nil] at hfound
      rw [offsetsAfter, hline, nameLine_eq hname, hfound]
      rfl
    rw [fieldOffsets, nameFields, List.flatMap_cons, hwhole]
    have hothers : ∀ field ∈ [("name=" : Text), "\"name\": ", "\"name\":"], offsetsAfter field name line = [] := by
      intro field hfield
      exact hnone field (List.mem_cons_of_mem _ hfield) (Or.inl (by revert field; decide))
    rw [List.flatMap_eq_nil_iff.2 hothers, List.append_nil]
  · rename_i hline
    exact List.flatMap_eq_nil_iff.2 (fun field hfield => hnone field hfield (Or.inr hline))

/-! ## Rows one after another -/

/-- Where the lines of a name have the name, if a text begins with these lines. -/
def valueOffsets (name : Text) : List Text → List Nat
  | [] => []
  | line :: lines =>
    (if line = nameLine name then [8] else []) ++ (valueOffsets name lines).map (byteSize line + 1 + ·)

theorem valueOffsets_append (name : Text) (others : List Text) : ∀ lines : List Text,
    valueOffsets name (lines ++ others) =
      valueOffsets name lines ++ (valueOffsets name others).map (byteSize (Text.terminated "\n" lines) + ·)
  | [] => by simp [valueOffsets, Text.terminated]
  | line :: lines => by
    rw [List.cons_append, valueOffsets, valueOffsets_append name others lines, valueOffsets, Text.terminated_cons]
    simp only [List.map_append, List.map_map, List.append_assoc, Text.byteSize_append, Function.comp_def,
      show byteSize "\n" = 1 from rfl, Nat.add_assoc]

theorem valueOffsets_append_nameLine (name : Text) (lines others : List Text) :
    valueOffsets name (lines ++ nameLine name :: others) =
      valueOffsets name lines ++ (byteSize (Text.terminated "\n" lines) + 8) ::
        (valueOffsets name others).map
          (byteSize (Text.terminated "\n" lines) + (byteSize (nameLine name) + 1) + ·) := by
  rw [valueOffsets_append, valueOffsets, if_pos rfl, List.singleton_append, List.map_cons, List.map_map]
  simp only [Function.comp_def, Nat.add_assoc]

theorem valueOffsets_eq_nil_iff : ∀ {lines : List Text}, valueOffsets name lines = [] ↔ nameLine name ∉ lines
  | [] => by simp [valueOffsets]
  | line :: lines => by
    rw [valueOffsets, List.append_eq_nil_iff, List.map_eq_nil_iff, valueOffsets_eq_nil_iff, List.mem_cons, not_or]
    exact and_congr_left' (by simp [eq_comm])

theorem pairwise_valueOffsets (name : Text) : ∀ lines : List Text, (valueOffsets name lines).Pairwise (· < ·)
  | [] => List.Pairwise.nil
  | line :: lines => by
    have hlines : ((valueOffsets name lines).map (byteSize line + 1 + ·)).Pairwise (· < ·) :=
      (pairwise_valueOffsets name lines).map _ (fun _ _ hlt => Nat.add_lt_add_left hlt _)
    rw [valueOffsets]
    split
    · rename_i hline
      refine List.pairwise_cons.2 ⟨fun o ho => ?_, hlines⟩
      obtain ⟨place, -, rfl⟩ := List.mem_map.1 ho
      have hsize := byteSize_nameLine_ge name
      rw [← hline] at hsize
      omega
    · exact hlines

theorem mem_fieldOffsets_terminated (hname : Toml.IsLiteral name) : ∀ {lines : List Text} {o : Nat},
    (∀ line ∈ lines, IsRow line) → (o ∈ fieldOffsets name (Text.terminated "\n" lines) ↔ o ∈ valueOffsets name lines)
  | [], o, _ => by
    simp [valueOffsets, fieldOffsets, offsetsAfter, Text.terminated, Text.occurrences_nil]
  | line :: lines, o, hrows => by
    obtain ⟨hrow, hrows⟩ := List.forall_mem_cons.1 hrows
    have hsplit : Text.terminated "\n" (line :: lines) = line ++ '\n' :: Text.terminated "\n" lines :=
      Text.terminated_cons "\n" line lines
    rw [hsplit, mem_fieldOffsets_append_newline hname, fieldOffsets_of_isRow hrow hname, valueOffsets, List.mem_append,
      List.mem_map]
    simp only [mem_fieldOffsets_terminated hname hrows]

/-- The rows of a text are found beside whatever comes before them. -/
theorem ofList_fieldOffsets (hname : Toml.IsLiteral name) (head : Text) {lines : List Text}
    (hrows : ∀ line ∈ lines, IsRow line) :
    SortedList.ofList (fieldOffsets name (head ++ '\n' :: Text.terminated "\n" lines)) =
      SortedList.ofList (fieldOffsets name head) ++ (valueOffsets name lines).map (byteSize head + 1 + ·) := by
  refine SortedList.eq_of_mem_iff (SortedList.pairwise_ofList _) (List.pairwise_append.2 ⟨?_, ?_, ?_⟩) (fun o => ?_)
  · exact SortedList.pairwise_ofList _
  · exact (pairwise_valueOffsets name lines).map _ (fun _ _ hlt => Nat.add_lt_add_left hlt _)
  · intro a ha b hb
    have hlt := lt_byteSize_of_mem_fieldOffsets (SortedList.mem_ofList.1 ha)
    obtain ⟨place, -, rfl⟩ := List.mem_map.1 hb
    omega
  · simp only [SortedList.mem_ofList, mem_fieldOffsets_append_newline hname, List.mem_append, List.mem_map,
      mem_fieldOffsets_terminated hname hrows]

end Span
end IdeExport
