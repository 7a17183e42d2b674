import IdeExport.Data.Format
import IdeExport.Text.Map
/-!
# Codecs

A codec says how the values of a type are written as data, and which data stands for which value.  Those of
records are put together from those of their fields.

A record is written as an object with all its fields.  It is read from an object in any order: a field that is
left out has a default or is an error, a field that comes twice is an error, and what is no field of the record
means nothing, though it has to be sound.  It is also read from an array that has the fields in their own order
and may end early.  Where an object is expected, a date is one with a single field of a reserved name.

What is written is the same for every format; what is read depends on it in a few points.
-/
namespace IdeExport

structure Codec (α : Type) where
  encode : α → Value
  decode? : Format → Value → Option α

namespace Codec

variable {α : Type}

/-! ## Plain values -/

def text : Codec Text where
  encode := .text
  decode?
    | _, .text t => some t
    | _, _ => none

def bool : Codec Bool where
  encode := .bool
  decode?
    | _, .bool b => some b
    | _, _ => none

/-- A value of a type whose values have names.  A name may also stand as the only field of an object, with
nothing in it. -/
def named (name : α → Text) (ofName? : Text → Option α) : Codec α where
  encode a := .text (name a)
  decode?
    | _, .text t => ofName? t
    | format, .object [(t, v)] => if format.isNothing v then ofName? t else none
    | _, _ => none

/-- Another type in place of the one that is written. -/
def imap {β : Type} (c : Codec α) (forth : α → β) (back : β → α) : Codec β where
  encode b := c.encode (back b)
  decode? format v := (c.decode? format v).map forth

/-! ## Options, lists and maps -/

def nullable (c : Codec α) : Codec (Option α) where
  encode
    | some a => c.encode a
    | none => .null
  decode?
    | _, .null => some none
    | format, v => (c.decode? format v).map some

def list (c : Codec α) : Codec (List α) where
  encode as := .array (as.map c.encode)
  decode?
    | format, .array items => items.mapM (c.decode? format)
    | _, _ => none

/-- The name of the only field of a date, where an object is expected. -/
def dateField : Text := "$__toml_private_datetime"

/-- The fields of a value that is an object or can stand for one. -/
def fields? : Value → Option (List (Text × Value))
  | .object fields => some fields
  | .date standard => some [(dateField, .text standard)]
  | _ => none

def map (c : Codec α) : Codec (TextMap α) where
  encode m := .object (m.entries.map (fun entry => (entry.1, c.encode entry.2)))
  decode? format v :=
    ((fields? v).bind (·.mapM (fun field => (c.decode? format field.2).map (field.1, ·)))).map TextMap.ofList

/-! ## Records -/

structure Fields where
  format : Format
  given : List (Text × Value)

/-- Whether the fields of an object can be those of a record with these names. -/
def isRecord (names : List Text) (fields : List (Text × Value)) : Bool :=
  names.all (fun name => (Value.named name fields).length ≤ 1) &&
    fields.all (fun field => names.contains field.1 || field.2.isSound)

def recordFields? (names : List Text) (format : Format) : Value → Option Fields
  | .array items =>
    if format.allowsRest || items.length ≤ names.length then some ⟨format, names.zip items⟩ else none
  | v => ((fields? v).filter (isRecord names)).map (⟨format, ·⟩)

def record (names : List Text) (write : α → List Value) (read? : Fields → Option α) : Codec α where
  encode a := .object (names.zip (write a))
  decode? format v := (recordFields? names format v).bind read?

def field (c : Codec α) (name : Text) (fields : Fields) : Option α :=
  (fields.given.lookup name).bind (c.decode? fields.format)

def fieldOr (c : Codec α) (default : α) (name : Text) (fields : Fields) : Option α :=
  match fields.given.lookup name with
  | some v => c.decode? fields.format v
  | none => some default

/-! ## Laws -/

/-- What is written is read as what it was written for. -/
def Lawful (c : Codec α) : Prop := ∀ format a, c.decode? format (c.encode a) = some a

theorem lawful_text : text.Lawful := fun _ _ => rfl

theorem lawful_bool : bool.Lawful := fun _ _ => rfl

theorem lawful_named {name : α → Text} {ofName? : Text → Option α} (h : ∀ a, ofName? (name a) = some a) :
    (named name ofName?).Lawful := fun _ => h

theorem Lawful.map {c : Codec α} (h : c.Lawful) : (map c).Lawful := by
  intro format m
  have hentries : ∀ entries : List (Text × α), (entries.map (fun entry => (entry.1, c.encode entry.2))).mapM
      (fun field => (c.decode? format field.2).map (field.1, ·)) = some entries := by
    intro entries
    induction entries with
    | nil => rfl
    | cons entry entries ih => simp [ih, h format entry.2]
  show Option.map TextMap.ofList (List.mapM _ _) = some m
  rw [hentries, Option.map_some, TextMap.ofList_entries]

theorem length_named_zip_le {name : Text} : ∀ {names : List Text} {vs : List Value}, names.Nodup →
    (Value.named name (names.zip vs)).length ≤ 1
  | [], _, _ => by simp [Value.named]
  | _ :: _, [], _ => by simp [Value.named]
  | n :: names, v :: vs, h => by
    obtain ⟨hnew, hrest⟩ := List.nodup_cons.1 h
    by_cases hn : n = name
    · subst hn
      have hnone : (names.zip vs).filter (·.1 = n) = [] := by
        simp only [List.filter_eq_nil_iff, decide_eq_true_eq]
        rintro ⟨a, b⟩ hab rfl
        exact hnew (List.of_mem_zip hab).1
      simp [Value.named, hnone]
    · have ih : (Value.named name (names.zip vs)).length ≤ 1 := length_named_zip_le hrest
      simpa [Value.named, hn] using ih

theorem isRecord_zip {names : List Text} {vs : List Value} (h : names.Nodup) :
    isRecord names (names.zip vs) = true := by
  simp only [isRecord, Bool.and_eq_true, List.all_eq_true, decide_eq_true_eq, Bool.or_eq_true, List.contains_iff_mem]
  exact ⟨fun name _ => length_named_zip_le h, fun field hfield => .inl (List.of_mem_zip hfield).1⟩

theorem recordFields?_zip {names : List Text} {format : Format} {vs : List Value} (h : names.Nodup) :
    recordFields? names format (.object (names.zip vs)) = some ⟨format, names.zip vs⟩ := by
  simp [recordFields?, fields?, Option.filter, isRecord_zip h]

end Codec
end IdeExport
