import Mathlib.Data.List.Basic
import IdeExport.Text.Basic
/-!
# Bytes

The encoding of a text.  Offsets count its bytes, so a place inside a text is a place in this list.  A byte below 128
stands for the character with that number and for nothing else (`mem_encoded_iff`): no part of a longer character
looks like one of ASCII.
-/
namespace IdeExport
namespace Text

def bytes (t : Text) : List UInt8 := t.flatMap String.utf8EncodeChar

def asciiByte (c : Char) : UInt8 := c.val.toUInt8

@[simp] theorem bytes_nil : bytes [] = [] := rfl

theorem bytes_cons (c : Char) (cs : Text) : bytes (c :: cs) = String.utf8EncodeChar c ++ bytes cs := List.flatMap_cons

@[simp] theorem bytes_append (s t : Text) : bytes (s ++ t) = bytes s ++ bytes t := List.flatMap_append

@[simp] theorem length_bytes : ∀ t : Text, (bytes t).length = byteSize t
  | [] => rfl
  | c :: cs => by rw [bytes_cons, List.length_append, String.length_utf8EncodeChar, length_bytes cs, byteSize_cons]

/-! ## ASCII -/

theorem utf8EncodeChar_of_lt {c : Char} (h : c.toNat < 128) : String.utf8EncodeChar c = [asciiByte c] := by
  have hval : c.val.toNat < 128 := h
  exact String.utf8EncodeChar_eq_singleton (Char.utf8Size_eq_one_iff.2 (UInt32.le_iff_toNat_le.2 (by simp; omega)))

theorem bytes_ascii_cons {c : Char} (h : c.toNat < 128) (cs : Text) : bytes (c :: cs) = asciiByte c :: bytes cs := by
  rw [bytes_cons, utf8EncodeChar_of_lt h, List.singleton_append]

theorem toNat_asciiByte {c : Char} (h : c.toNat < 128) : (asciiByte c).toNat = c.toNat := by
  have hval : c.val.toNat = c.toNat := rfl
  rw [asciiByte, UInt32.toNat_toUInt8, hval]
  omega

/-- The bytes of a character beyond ASCII are all 128 or more. -/
theorem le_of_mem_utf8EncodeChar {c : Char} (hc : ¬ c.toNat < 128) {b : UInt8} (hb : b ∈ String.utf8EncodeChar c) :
    128 ≤ b.toNat := by
  have hval : c.val.toNat = c.toNat := rfl
  have hone : ¬ c.val.toNat ≤ 127 := by omega
  have hbyte : ∀ n, b = UInt8.ofNat n → 128 ≤ n → n < 256 → 128 ≤ b.toNat := by
    rintro n rfl hge hlt
    rw [UInt8.toNat_ofNat', Nat.mod_eq_of_lt hlt]
    exact hge
  rw [String.utf8EncodeChar, if_neg hone] at hb
  split_ifs at hb
  -- two, three or four bytes: each of them is a rest of the number put on top of 128 or more
  all_goals
    simp only [List.mem_cons, List.not_mem_nil, or_false] at hb
    casesm* _ ∨ _
    all_goals exact hbyte _ ‹_› (by omega) (by omega)

theorem mem_encoded_iff {c d : Char} (hd : d.toNat < 128) : asciiByte d ∈ String.utf8EncodeChar c ↔ c = d := by
  constructor
  · intro hmem
    by_cases hc : c.toNat < 128
    · rw [utf8EncodeChar_of_lt hc, List.mem_singleton] at hmem
      have hsame := congrArg UInt8.toNat hmem
      rw [toNat_asciiByte hd, toNat_asciiByte hc] at hsame
      exact Char.toNat_inj.1 hsame.symm
    · have hle := le_of_mem_utf8EncodeChar hc hmem
      rw [toNat_asciiByte hd] at hle
      omega
  · rintro rfl
    rw [utf8EncodeChar_of_lt hd]
    exact List.mem_singleton_self _

end Text
end IdeExport
