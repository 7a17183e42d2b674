import Mathlib.Order.Bounds.Defs
import IdeExport.Proofs.Snapshot.NameFields
import IdeExport.Proofs.Text.Bytes
/-!
# Spans of names

What a search for a name finds, in any text and for any name.  Every span is that of the name in quotes
(`StandsAfter.covers`).  A search passes over places where its pattern stands across what it has found, but none of
them comes before all that is found (`Finds`), so the first span is the leftmost one: of those where the name is the
value of a field, or where it is not, of all those in quotes (`allOfName_finds`).
-/
namespace IdeExport
namespace Span

open Text (byteSize bytes OccursAt)

variable {before name source : Text} {offset : Nat}

/-! ## Where names stand -/

/-- A name stands in quotes behind some other text.  The offset is that of the name itself. -/
def StandsAfter (before name source : Text) (offset : Nat) : Prop :=
  ∃ place, OccursAt (before ++ quoted name) source place ∧ place + byteSize before + 1 = offset

/-- A name stands as the value of a field called `name`, in one of its spellings. -/
def StandsAsValue (name source : Text) (offset : Nat) : Prop :=
  ∃ field ∈ nameFields, StandsAfter field name source offset

/-- A span holds a name and nothing else, and there are quotes around it. -/
structure Covers (span : Span) (name source : Text) : Prop where
  inside : span.offset + span.size ≤ byteSize source
  covered : ((bytes source).drop span.offset).take span.size = bytes name
  opened : 0 < span.offset ∧ (bytes source)[span.offset - 1]? = some (Text.asciiByte '"')
  closed : (bytes source)[span.offset + span.size]? = some (Text.asciiByte '"')

theorem exists_standsAfter_iff :
    (∃ offset, StandsAfter before name source offset) ↔ before ++ quoted name <:+: source := by
  rw [← Text.exists_occursAt_iff]
  exact ⟨fun ⟨_, place, hplace, _⟩ => ⟨place, hplace⟩, fun ⟨place, hplace⟩ => ⟨_, place, hplace, rfl⟩⟩

theorem exists_standsAsValue_iff :
    (∃ offset, StandsAsValue name source offset) ↔ ∃ field ∈ nameFields, field ++ quoted name <:+: source := by
  simp only [StandsAsValue, ← exists_standsAfter_iff]
  exact ⟨fun ⟨offset, field, hfield, h⟩ => ⟨field, hfield, offset, h⟩,
    fun ⟨field, hfield, offset, h⟩ => ⟨offset, field, hfield, h⟩⟩

theorem StandsAfter.quoted (h : StandsAfter before name source offset) : StandsAfter [] name source offset := by
  obtain ⟨-, ⟨front, after, rfl, rfl⟩, rfl⟩ := h
  refine ⟨byteSize front + byteSize before, ⟨front ++ before, after, ?_, Text.byteSize_append before front⟩, rfl⟩
  simp only [List.nil_append, List.append_assoc]

theorem StandsAsValue.quoted (h : StandsAsValue name source offset) : StandsAfter [] name source offset := by
  obtain ⟨field, -, hfield⟩ := h
  exact hfield.quoted

theorem StandsAfter.covers (h : StandsAfter [] name source offset) : Covers ⟨offset, byteSize name⟩ name source := by
  obtain ⟨-, ⟨front, after, rfl, rfl⟩, rfl⟩ := h
  have hquote : bytes "\"" = [Text.asciiByte '"'] := Text.bytes_ascii_cons (by decide) []
  have hbytes : bytes (front ++ ([] ++ Span.quoted name ++ after)) =
      (bytes front ++ [Text.asciiByte '"']) ++ (bytes name ++ Text.asciiByte '"' :: bytes after) := by
    simp only [Span.quoted, Text.bytes_append, hquote, List.append_assoc, List.nil_append, List.singleton_append]
  have hfront : (bytes front ++ [Text.asciiByte '"']).length = byteSize front + byteSize [] + 1 := by simp
  constructor
  · rw [← Text.length_bytes (front ++ _), hbytes, List.length_append, hfront, List.length_append, Text.length_bytes]
    exact Nat.add_le_add_left (Nat.le_add_right _ _) _
  · rw [hbytes, List.drop_left' hfront, List.take_left' (Text.length_bytes name)]
  · rw [hbytes]
    simp
  · rw [hbytes, List.getElem?_append_right (by simp)]
    simp

/-! ## Searches -/

/-- What has been found is there, and nothing that is there comes before all that has been found. -/
structure Finds (found : List Nat) (there : Nat → Prop) : Prop where
  sound : ∀ offset ∈ found, there offset
  leftmost : ∀ offset, there offset → ∃ first ∈ found, first ≤ offset

theorem finds_offsetsAfter (before name source : Text) :
    Finds (offsetsAfter before name source) (StandsAfter before name source) := by
  have hpattern := field_append_quoted_ne_nil before name
  constructor
  · intro offset hoffset
    obtain ⟨place, hplace, rfl⟩ := List.mem_map.1 hoffset
    exact ⟨place, Text.occursAt_of_mem_occurrences hpattern place hplace, rfl⟩
  · rintro - ⟨place, hplace, rfl⟩
    obtain ⟨first, hfirst, hle⟩ := Text.exists_mem_occurrences_le hpattern hplace
    exact ⟨_, List.mem_map_of_mem hfirst, by omega⟩

theorem finds_fieldOffsets (name source : Text) : Finds (fieldOffsets name source) (StandsAsValue name source) := by
  constructor
  · intro offset hoffset
    obtain ⟨field, hfield, hfound⟩ := mem_fieldOffsets.1 hoffset
    exact ⟨field, hfield, (finds_offsetsAfter field name source).sound offset hfound⟩
  · rintro offset ⟨field, hfield, hstands⟩
    obtain ⟨first, hfirst, hle⟩ := (finds_offsetsAfter field name source).leftmost offset hstands
    exact ⟨first, mem_fieldOffsets.2 ⟨field, hfield, hfirst⟩, hle⟩

namespace Finds

variable {found : List Nat} {there : Nat → Prop}

theorem eq_nil_iff (h : Finds found there) : found = [] ↔ ¬ ∃ offset, there offset := by
  rw [List.eq_nil_iff_forall_not_mem, not_exists]
  constructor
  · intro hnone offset hoffset
    obtain ⟨first, hfirst, -⟩ := h.leftmost offset hoffset
    exact hnone first hfirst
  · exact fun hnone offset hoffset => hnone offset (h.sound offset hoffset)

/-- The first of what has been found, in order, is the leftmost one there is. -/
theorem isLeast (h : Finds found there) {first : Nat} (hfirst : (SortedList.ofList found).head? = some first) :
    IsLeast {offset | there offset} first := by
  obtain ⟨others, hothers⟩ := List.head?_eq_some_iff.1 hfirst
  have hmem : first ∈ found := SortedList.mem_ofList.1 (hothers ▸ List.mem_cons_self)
  have hsorted := SortedList.pairwise_ofList found
  rw [hothers, List.pairwise_cons] at hsorted
  refine ⟨h.sound first hmem, fun offset hoffset => ?_⟩
  obtain ⟨place, hplace, hle⟩ := h.leftmost offset hoffset
  have hplace' := SortedList.mem_ofList.2 hplace
  rw [hothers, List.mem_cons] at hplace'
  obtain rfl | hlater := hplace'
  · exact hle
  · exact Nat.le_trans (Nat.le_of_lt (hsorted.1 place hlater)) hle

theorem exists_first (h : Finds found there) (hthere : ∃ offset, there offset) :
    ∃ first, (SortedList.ofList found).head? = some first := by
  obtain ⟨offset, hoffset⟩ := hthere
  obtain ⟨place, hplace, -⟩ := h.leftmost offset hoffset
  exact ⟨_, List.head?_eq_some_head (List.ne_nil_of_mem (SortedList.mem_ofList.2 hplace))⟩

end Finds

theorem finds_nameOffsets_of_exists (h : ∃ offset, StandsAsValue name source offset) :
    Finds (nameOffsets name source) (StandsAsValue name source) := by
  have hfinds := finds_fieldOffsets name source
  rwa [nameOffsets_of_ne_nil (fun hnil => hfinds.eq_nil_iff.1 hnil h)]

theorem finds_nameOffsets_of_not_exists (h : ¬ ∃ offset, StandsAsValue name source offset) :
    Finds (nameOffsets name source) (StandsAfter [] name source) := by
  rw [nameOffsets, (finds_fieldOffsets name source).eq_nil_iff.2 h]
  exact finds_offsetsAfter [] name source

theorem standsAfter_of_mem_nameOffsets (h : offset ∈ nameOffsets name source) : StandsAfter [] name source offset := by
  by_cases hvalue : ∃ offset, StandsAsValue name source offset
  · exact ((finds_nameOffsets_of_exists hvalue).sound offset h).quoted
  · exact (finds_nameOffsets_of_not_exists hvalue).sound offset h

theorem nameOffsets_eq_nil_iff : nameOffsets name source = [] ↔ ¬ quoted name <:+: source := by
  by_cases hvalue : ∃ offset, StandsAsValue name source offset
  · rw [(finds_nameOffsets_of_exists hvalue).eq_nil_iff, not_iff_not]
    obtain ⟨offset, hoffset⟩ := hvalue
    exact ⟨fun _ => exists_standsAfter_iff.1 ⟨offset, hoffset.quoted⟩, fun _ => ⟨offset, hoffset⟩⟩
  · rw [(finds_nameOffsets_of_not_exists hvalue).eq_nil_iff, exists_standsAfter_iff]
    rfl

/-! ## Spans -/

theorem mem_allOfName {span : Span} :
    span ∈ allOfName source name ↔ ∃ offset ∈ nameOffsets name source, ⟨offset, byteSize name⟩ = span := by
  simp only [allOfName, List.mem_map, SortedList.mem_ofList]

theorem head?_allOfName (source name : Text) : (allOfName source name).head? =
    (SortedList.ofList (nameOffsets name source)).head?.map (fun offset => ⟨offset, byteSize name⟩) := List.head?_map

/-- **The spans of a name are in order, each of them is the name in quotes, and the first of them is the leftmost.**  If
the name is the value of a field, only such places count, and if it is not, all places in quotes. -/
theorem allOfName_finds (source name : Text) :
    ((allOfName source name).map (·.offset)).Pairwise (· < ·) ∧
    (∀ span ∈ allOfName source name, span.size = byteSize name ∧ span.Covers name source) ∧
    ((∃ field ∈ nameFields, field ++ quoted name <:+: source) →
      (∀ span ∈ allOfName source name, StandsAsValue name source span.offset) ∧
      ∃ first, (allOfName source name).head? = some first ∧
        IsLeast {offset | StandsAsValue name source offset} first.offset) ∧
    ((¬ ∃ field ∈ nameFields, field ++ quoted name <:+: source) →
      ∀ first, (allOfName source name).head? = some first →
        IsLeast {offset | StandsAfter [] name source offset} first.offset) ∧
    (ofName? source name = none ↔ ¬ quoted name <:+: source) := by
  rw [← exists_standsAsValue_iff, ofName?, head?_allOfName]
  refine ⟨?_, ?_, ?_, ?_, ?_⟩
  · rw [allOfName, List.map_map]
    exact (List.map_id _).symm ▸ SortedList.pairwise_ofList _
  · intro span hspan
    obtain ⟨offset, hoffset, rfl⟩ := mem_allOfName.1 hspan
    exact ⟨rfl, (standsAfter_of_mem_nameOffsets hoffset).covers⟩
  · intro hvalue
    have hfinds := finds_nameOffsets_of_exists hvalue
    obtain ⟨first, hfirst⟩ := hfinds.exists_first hvalue
    refine ⟨fun span hspan => ?_, ⟨first, byteSize name⟩, by rw [hfirst]; rfl, hfinds.isLeast hfirst⟩
    obtain ⟨offset, hoffset, rfl⟩ := mem_allOfName.1 hspan
    exact hfinds.sound offset hoffset
  · intro hvalue first hfirst
    obtain ⟨offset, hoffset, rfl⟩ := Option.map_eq_some_iff.1 hfirst
    exact (finds_nameOffsets_of_not_exists hvalue).isLeast hoffset
  · rw [Option.map_eq_none_iff, List.head?_eq_none_iff, ← nameOffsets_eq_nil_iff]
    simp only [List.eq_nil_iff_forall_not_mem, SortedList.mem_ofList]

/-- The name looks like the text around it, so a second place stands across the first one and is passed over. -/
example : allOfName "name=\"\" name=\"\" name=\"\"" "\" name=\"" = [⟨6, 8⟩] := by decide

end Span
end IdeExport
