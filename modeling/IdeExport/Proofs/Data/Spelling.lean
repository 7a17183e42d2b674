import IdeExport.Data.Codec
/-!
# Spellings of data

A record may be given by position: in place of an object stands the array of the values of its fields.  A codec
`Reads` what it writes if it reads every such spelling, also where records inside records are given so, and this law goes
from the fields of a record to the record (`Reads.record`).  What a codec `Yields` is all that it can read.
-/
namespace IdeExport

namespace Value

variable {maps : List Text}

mutual

/-- The same data, with some records given by position.  Objects in fields of the names `maps` are no records. -/
inductive ByPosition (maps : List Text) : Value → Value → Prop
  | same (v : Value) : ByPosition maps v v
  | array {items spelled : List Value} : AllByPosition maps items spelled →
      ByPosition maps (.array items) (.array spelled)
  | named {fields : List (Text × Value)} {values : List Value} : FieldsByPosition maps fields values →
      ByPosition maps (.object fields) (.object ((fields.map (·.1)).zip values))
  | positional {fields : List (Text × Value)} {values : List Value} : FieldsByPosition maps fields values →
      ByPosition maps (.object fields) (.array values)

inductive AllByPosition (maps : List Text) : List Value → List Value → Prop
  | nil : AllByPosition maps [] []
  | cons {v w : Value} {vs ws : List Value} : ByPosition maps v w → AllByPosition maps vs ws →
      AllByPosition maps (v :: vs) (w :: ws)

inductive FieldsByPosition (maps : List Text) : List (Text × Value) → List Value → Prop
  | nil : FieldsByPosition maps [] []
  | map {name : Text} {v : Value} {fields : List (Text × Value)} {values : List Value} : name ∈ maps →
      FieldsByPosition maps fields values → FieldsByPosition maps ((name, v) :: fields) (v :: values)
  | cons {name : Text} {v w : Value} {fields : List (Text × Value)} {values : List Value} : name ∉ maps →
      ByPosition maps v w → FieldsByPosition maps fields values →
      FieldsByPosition maps ((name, v) :: fields) (w :: values)

end

theorem allByPosition_same : ∀ items : List Value, AllByPosition maps items items
  | [] => .nil
  | v :: vs => .cons (.same v) (allByPosition_same vs)

theorem fieldsByPosition_same : ∀ fields : List (Text × Value), FieldsByPosition maps fields (fields.map (·.2))
  | [] => .nil
  | (name, v) :: fields => by
    by_cases hname : name ∈ maps
    · exact .map hname (fieldsByPosition_same fields)
    · exact .cons hname (.same v) (fieldsByPosition_same fields)

theorem ByPosition.eq_text {t : Text} {v : Value} (h : ByPosition maps (.text t) v) : v = .text t := by
  cases h
  rfl

theorem ByPosition.eq_bool {b : Bool} {v : Value} (h : ByPosition maps (.bool b) v) : v = .bool b := by
  cases h
  rfl

theorem ByPosition.eq_null {v : Value} (h : ByPosition maps .null v) : v = .null := by
  cases h
  rfl

theorem ByPosition.of_array {items : List Value} {v : Value} (h : ByPosition maps (.array items) v) :
    ∃ spelled, v = .array spelled ∧ AllByPosition maps items spelled := by
  cases h with
  | same => exact ⟨items, rfl, allByPosition_same items⟩
  | array h => exact ⟨_, rfl, h⟩

theorem FieldsByPosition.length {values : List Value} : ∀ {fields : List (Text × Value)},
    FieldsByPosition maps fields values → values.length = fields.length
  | _, .nil => rfl
  | _, .map _ h => congrArg (· + 1) h.length
  | _, .cons _ _ h => congrArg (· + 1) h.length

end Value

namespace Codec

open Value (ByPosition AllByPosition FieldsByPosition)

variable {α : Type} {c : Codec α} {maps : List Text} {P : α → Prop} {format : Format}

/-! ## Reading what was written -/

/-- Every spelling of a value with a property is read as the value. -/
def Reads (c : Codec α) (maps : List Text) (P : α → Prop) : Prop :=
  ∀ format a v, P a → ByPosition maps (c.encode a) v → c.decode? format v = some a

theorem Lawful.reads (h : c.Lawful) (hone : ∀ a v, ByPosition maps (c.encode a) v → v = c.encode a) :
    c.Reads maps (fun _ => True) := by
  intro format a v _ hv
  rw [hone a v hv]
  exact h format a

theorem reads_text : text.Reads maps (fun _ => True) := lawful_text.reads (fun _ _ => ByPosition.eq_text)

theorem reads_bool : bool.Reads maps (fun _ => True) := lawful_bool.reads (fun _ _ => ByPosition.eq_bool)

theorem reads_named {name : α → Text} {ofName? : Text → Option α} (h : ∀ a, ofName? (name a) = some a) :
    (named name ofName?).Reads maps (fun _ => True) :=
  (lawful_named h).reads (fun _ _ => ByPosition.eq_text)

theorem Reads.imap {β : Type} {forth : α → β} {back : β → α} (h : c.Reads maps (fun _ => True)) :
    (c.imap forth back).Reads maps (fun b => forth (back b) = b) := by
  intro format b v hb hv
  simp [Codec.imap, h format (back b) v trivial hv, hb]

theorem Reads.nullable (h : c.Reads maps P) (hnull : ∀ a v, ByPosition maps (c.encode a) v → v ≠ .null) :
    (nullable c).Reads maps (fun o => ∀ a, o = some a → P a) := by
  intro format o v ho hv
  cases o with
  | none =>
    rw [hv.eq_null]
    rfl
  | some a =>
    have hread := h format a v (ho a rfl) hv
    have hne := hnull a v hv
    cases v <;> first | exact absurd rfl hne | (simp [Codec.nullable, hread])

theorem reads_nullable_text : (nullable text).Reads maps (fun _ => True) := by
  intro format o v _ hv
  refine reads_text.nullable (fun a v hv => ?_) format o v (fun _ _ => trivial) hv
  rw [hv.eq_text]
  exact Value.noConfusion

theorem Reads.list (h : c.Reads maps P) : (list c).Reads maps (fun as => ∀ a ∈ as, P a) := by
  intro format as v has hv
  obtain ⟨spelled, rfl, hall⟩ := hv.of_array
  show spelled.mapM (c.decode? format) = some as
  clear hv
  induction as generalizing spelled with
  | nil =>
    cases hall
    rfl
  | cons a as ih =>
    obtain ⟨ha, has⟩ := List.forall_mem_cons.1 has
    cases hall with
    | cons hv hvs => simp [h format a _ ha hv, ih has _ hvs]

theorem reads_texts : (list text).Reads maps (fun _ => True) :=
  fun format texts v _ => reads_text.list format texts v (fun _ _ => trivial)

/-! ## Records -/

/-- What is given has a spelling for each field that was written. -/
def Gives (maps : List Text) (written given : List (Text × Value)) : Prop :=
  ∀ field ∈ written, ∃ v, given.lookup field.1 = some v ∧ (v = field.2 ∨ field.1 ∉ maps ∧ ByPosition maps field.2 v)

theorem gives_of_fieldsByPosition : ∀ {fields : List (Text × Value)} {values : List Value},
    FieldsByPosition maps fields values → (fields.map (·.1)).Nodup →
    Gives maps fields ((fields.map (·.1)).zip values)
  | [], _, _, _ => fun _ hfield => absurd hfield List.not_mem_nil
  | (first, u) :: fields, _, h, hnodup => by
    obtain ⟨hnew, hnodup⟩ := List.nodup_cons.1 hnodup
    -- the values behind are given for other names
    have hbehind : ∀ (values : List Value) (x : Value), FieldsByPosition maps fields values →
        Gives maps fields ((first, x) :: (fields.map (·.1)).zip values) := by
      intro values x hvalues field hfield
      have hne : (field.1 == first) = false := by
        rw [beq_eq_false_iff_ne]
        rintro rfl
        exact hnew (List.mem_map_of_mem (f := (·.1)) hfield)
      rw [List.lookup_cons, hne]
      exact gives_of_fieldsByPosition hvalues hnodup field hfield
    cases h with
    | map hmap hvalues =>
      exact List.forall_mem_cons.2 ⟨⟨_, List.lookup_cons_self, Or.inl rfl⟩, hbehind _ _ hvalues⟩
    | cons hmap hspelled hvalues =>
      exact List.forall_mem_cons.2 ⟨⟨_, List.lookup_cons_self, Or.inr ⟨hmap, hspelled⟩⟩, hbehind _ _ hvalues⟩

/-- **A record is read from every spelling if its fields are.** -/
theorem Reads.record {names : List Text} {write : α → List Value} {read? : Fields → Option α} (hnames : names.Nodup)
    (hlength : ∀ a, (write a).length = names.length)
    (hread : ∀ format given a, P a → Gives maps (names.zip (write a)) given → read? ⟨format, given⟩ = some a) :
    (Codec.record names write read?).Reads maps P := by
  intro format a v ha hv
  have hfst : (names.zip (write a)).map (·.1) = names := List.map_fst_zip (Nat.le_of_eq (hlength a).symm)
  have hgiven : ∀ {values : List Value}, FieldsByPosition maps (names.zip (write a)) values →
      read? ⟨format, names.zip values⟩ = some a := by
    intro values hvalues
    have hgives := gives_of_fieldsByPosition hvalues (hfst.symm ▸ hnames)
    rw [hfst] at hgives
    exact hread format _ a ha hgives
  have hobject : ∀ {values : List Value}, FieldsByPosition maps (names.zip (write a)) values →
      (Codec.record names write read?).decode? format (.object (names.zip values)) = some a := by
    intro values hvalues
    show (recordFields? names format (.object (names.zip values))).bind read? = some a
    rw [recordFields?_zip hnames]
    exact hgiven hvalues
  cases hv with
  | same =>
    have hsame := hobject (Value.fieldsByPosition_same _)
    rwa [List.map_snd_zip (Nat.le_of_eq (hlength a))] at hsame
  | named hvalues =>
    rw [hfst]
    exact hobject hvalues
  | @positional _ values hvalues =>
    have hle : values.length ≤ names.length := by
      rw [hvalues.length, List.length_zip]
      exact Nat.min_le_left _ _
    show (recordFields? names format (.array values)).bind read? = some a
    rw [recordFields?, if_pos (by rw [decide_eq_true hle, Bool.or_true])]
    exact hgiven hvalues

/-! ## Fields

A record whose fields are read in the order in which they are written is read one field at a time. -/

variable {β : Type} {written given : List (Text × Value)} {a default : α} {name : Text} {rest : α → Option β} {b : β}

theorem Gives.tail {field : Text × Value} (h : Gives maps (field :: written) given) : Gives maps written given :=
  (List.forall_mem_cons.1 h).2

theorem Gives.decode? (h : Gives maps ((name, c.encode a) :: written) given) (format : Format)
    (hc : c.Reads maps P) (ha : P a) : ∃ v, given.lookup name = some v ∧ c.decode? format v = some a := by
  obtain ⟨v, hlookup, hv⟩ := h _ List.mem_cons_self
  refine ⟨v, hlookup, hc format a v ha ?_⟩
  rcases hv with rfl | ⟨-, hv⟩
  · exact .same _
  · exact hv

theorem Gives.field (h : Gives maps ((name, c.encode a) :: written) given) (hc : c.Reads maps P) (ha : P a)
    (hrest : Gives maps written given → rest a = some b) : c.field name ⟨format, given⟩ >>= rest = some b := by
  obtain ⟨v, hlookup, hread⟩ := h.decode? format hc ha
  have hfield : c.field name ⟨format, given⟩ = some a := by
    simp only [Codec.field, hlookup, Option.bind_some, hread]
  rw [hfield]
  exact hrest h.tail

theorem Gives.fieldOr (h : Gives maps ((name, c.encode a) :: written) given) (hc : c.Reads maps P) (ha : P a)
    (hrest : Gives maps written given → rest a = some b) :
    c.fieldOr default name ⟨format, given⟩ >>= rest = some b := by
  obtain ⟨v, hlookup, hread⟩ := h.decode? format hc ha
  have hfield : c.fieldOr default name ⟨format, given⟩ = some a := by
    simp only [Codec.fieldOr, hlookup, hread]
  rw [hfield]
  exact hrest h.tail

theorem Gives.mapOr (h : Gives maps ((name, c.encode a) :: written) given) (hname : name ∈ maps) (hc : c.Lawful)
    (hrest : Gives maps written given → rest a = some b) :
    c.fieldOr default name ⟨format, given⟩ >>= rest = some b := by
  obtain ⟨v, hlookup, hv⟩ := h _ List.mem_cons_self
  obtain rfl : v = c.encode a := hv.resolve_right (fun hspelled => hspelled.1 hname)
  have hfield : c.fieldOr default name ⟨format, given⟩ = some a := by
    simp only [Codec.fieldOr, hlookup, hc format a]
  rw [hfield]
  exact hrest h.tail

/-! ## What is read -/

def Yields (c : Codec α) (P : α → Prop) : Prop := ∀ format v a, c.decode? format v = some a → P a

theorem exists_of_mem_mapM {f : Value → Option α} : ∀ {items : List Value} {as : List α}, items.mapM f = some as →
    ∀ a ∈ as, ∃ v, f v = some a
  | [], _, h, a, ha => by
    cases h
    exact absurd ha List.not_mem_nil
  | v :: items, as, h, a, ha => by
    simp only [List.mapM_cons, Option.bind_eq_bind, Option.bind_eq_some_iff, Option.pure_def, Option.some.injEq] at h
    obtain ⟨b, hb, bs, hbs, rfl⟩ := h
    rcases List.mem_cons.1 ha with rfl | ha
    · exact ⟨v, hb⟩
    · exact exists_of_mem_mapM hbs a ha

theorem Yields.list (h : c.Yields P) : (list c).Yields (fun as => ∀ a ∈ as, P a) := by
  intro format v as hread
  cases v with
  | array items =>
    intro a ha
    obtain ⟨v, hv⟩ := exists_of_mem_mapM hread a ha
    exact h format v a hv
  | _ => cases hread

theorem Yields.nullable (h : c.Yields P) : (nullable c).Yields (fun o => ∀ a, o = some a → P a) := by
  intro format v o hread a ho
  subst ho
  have hsome : ∃ b, c.decode? format v = some b ∧ b = a := by
    cases v <;> simp_all [Codec.nullable]
  obtain ⟨b, hb, rfl⟩ := hsome
  exact h format v b hb

/-- One step of reading, with what it gave at hand for the rest. -/
theorem forall_bind {o : Option β} {f : β → Option α} (h : ∀ b, o = some b → ∀ a, f b = some a → P a) :
    ∀ a, o >>= f = some a → P a := by
  intro a hread
  obtain ⟨b, hb, ha⟩ := Option.bind_eq_some_iff.1 hread
  exact h b hb a ha

theorem Yields.record {names : List Text} {write : α → List Value} {read? : Fields → Option α}
    (h : ∀ fields a, read? fields = some a → P a) : (Codec.record names write read?).Yields P :=
  fun _ _ => forall_bind (fun fields _ => h fields)

theorem Yields.field {fields : Fields} (h : c.Yields P) (hread : c.field name fields = some a) : P a := by
  obtain ⟨v, -, hv⟩ := Option.bind_eq_some_iff.1 hread
  exact h _ v a hv

theorem Yields.fieldOr {fields : Fields} (h : c.Yields P) (hdefault : P default)
    (hread : c.fieldOr default name fields = some a) : P a := by
  unfold Codec.fieldOr at hread
  split at hread
  · exact h _ _ a hread
  · cases hread
    exact hdefault

end Codec
end IdeExport
