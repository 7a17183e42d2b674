import IdeExport.Data.Codec
/-!
# Shapes of data

A shape says which fields a record has and in which order, and what is in them.  Data that `fits` a shape leaves out no
field and has no other ones.
-/
namespace IdeExport

inductive Shape
  /-- A text, a yes or no, or nothing. -/
  | plain
  | map
  | list (items : Shape)
  | record (fields : List (Text × Shape))

namespace Value

def isPlain : Value → Bool
  | .null | .bool _ | .text _ => true
  | _ => false

end Value

namespace Shape

mutual

def fits : Shape → Value → Bool
  | .plain, v => v.isPlain
  | .map, .object entries => entries.all (·.2.isPlain)
  | .list shape, .array items => items.all shape.fits
  | .record fields, .object given => fieldsFit fields given
  | _, _ => false

def fieldsFit : List (Text × Shape) → List (Text × Value) → Bool
  | [], [] => true
  | (name, shape) :: fields, (givenName, v) :: given => name = givenName && shape.fits v && fieldsFit fields given
  | _, _ => false

end

end Shape

namespace Codec

variable {α : Type} {c : Codec α} {shape : Shape}

def Fits (c : Codec α) (shape : Shape) : Prop := ∀ a, shape.fits (c.encode a) = true

theorem fits_text : text.Fits .plain := fun _ => rfl

theorem fits_bool : bool.Fits .plain := fun _ => rfl

theorem fits_named {name : α → Text} {ofName? : Text → Option α} : (named name ofName?).Fits .plain := fun _ => rfl

theorem Fits.imap {β : Type} {forth : α → β} {back : β → α} (h : c.Fits shape) : (c.imap forth back).Fits shape :=
  fun b => h (back b)

theorem Fits.nullable (h : c.Fits .plain) : (nullable c).Fits .plain
  | none => rfl
  | some a => h a

theorem Fits.list (h : c.Fits shape) : (list c).Fits (.list shape) := by
  intro as
  show (as.map c.encode).all shape.fits = true
  rw [List.all_map, List.all_eq_true]
  exact fun a _ => h a

theorem Fits.map (h : c.Fits .plain) : (map c).Fits .map := by
  intro m
  show (m.entries.map (fun entry => (entry.1, c.encode entry.2))).all (·.2.isPlain) = true
  rw [List.all_map, List.all_eq_true]
  exact fun entry _ => h entry.2

theorem fits_texts : (Codec.list text).Fits (.list .plain) := fits_text.list

theorem fits_nullable_text : (Codec.nullable text).Fits .plain := fits_text.nullable

/-! ## Records -/

variable {fields : List (Text × Shape)}

theorem Fits.record {names : List Text} {write : α → List Value} {read? : Fields → Option α}
    (h : ∀ a, Shape.fieldsFit fields (names.zip (write a)) = true) :
    (Codec.record names write read?).Fits (.record fields) := h

theorem Fits.cons {name : Text} {a : α} {given : List (Text × Value)} (hc : c.Fits shape)
    (h : Shape.fieldsFit fields given = true) :
    Shape.fieldsFit ((name, shape) :: fields) ((name, c.encode a) :: given) = true := by
  have ha : shape.fits (c.encode a) = true := hc a
  simp only [Shape.fieldsFit, ha, h, decide_true, Bool.and_self]

end Codec
end IdeExport
