import Mathlib.Data.List.DropRight
import IdeExport.Proofs.Text.Bytes
import IdeExport.Snapshot.Span
/-!
# Positions

What a reader says about the place of an error.  It has read some bytes of the text, the faulty one last, and counts
lines and columns as it reads: a line feed begins a new line, of which nothing has been read (`Position.after`).  The
offset that is worked out from there is that of the faulty byte unless this byte is a line feed
(`offsetOf?_readUpTo_eq_some_iff`): the line is then the next one, and its column zero is taken for its first byte,
which is one byte too far.
-/
namespace IdeExport
namespace Span

open Text (byteSize bytes)

/-! ## Lines of bytes -/

def lineFeed : UInt8 := 10

structure Position where
  line : Nat
  column : Nat
  deriving DecidableEq, Repr

/-- The line is counted from one, and the column is the number of bytes of that line that have been read. -/
def Position.after (read : List UInt8) : Position :=
  ⟨1 + read.count lineFeed, (read.rtakeWhile (· ≠ lineFeed)).length⟩

/-- Where a reader stands that has read the byte at an offset. -/
def readUpTo (source : Text) (offset : Nat) : Position := .after ((bytes source).take (offset + 1))

theorem lineFeed_mem_encoded_iff {c : Char} : lineFeed ∈ String.utf8EncodeChar c ↔ c = '\n' :=
  Text.mem_encoded_iff (d := '\n') (by decide)

/-- A prefix that ends in a byte goes beyond everything in front of the first such byte. -/
theorem exists_eq_append_of_prefix {b : UInt8} {front xs ys : List UInt8} (h : front ++ [b] <+: xs ++ ys)
    (hb : b ∉ xs) : ∃ rest, front = xs ++ rest ∧ rest ++ [b] <+: ys := by
  have hlast : b ∈ front ++ [b] := List.mem_append_right _ (List.mem_singleton_self b)
  obtain hshort | hlong := List.prefix_or_prefix_of_prefix h (List.prefix_append xs ys)
  · exact absurd (hshort.mem hlast) hb
  · obtain heq | ⟨rest, rfl⟩ := List.prefix_concat_iff.1 hlong
    · exact absurd (heq ▸ hlast) hb
    · rw [List.append_assoc] at h
      exact ⟨rest, rfl, (List.prefix_append_right_inj xs).1 h⟩

/-- The lines up to a line feed have all bytes up to it. -/
theorem bytesOfLines_of_prefix : ∀ {t : Text} {front : List UInt8}, front ++ [lineFeed] <+: bytes t →
    bytesOfLines (front.count lineFeed + 1) t = front.length + 1
  | [], front, h => by simp at h
  | c :: cs, front, h => by
    by_cases hc : c = '\n'
    · subst hc
      have hbytes : bytes ('\n' :: cs) = lineFeed :: bytes cs := Text.bytes_ascii_cons (by decide) cs
      rw [hbytes] at h
      rw [bytesOfLines, if_pos rfl]
      cases front with
      | nil => cases cs <;> rfl
      | cons b front =>
        obtain ⟨rfl, hfront⟩ := List.cons_prefix_cons.1 h
        rw [List.count_cons_self, bytesOfLines_of_prefix hfront]
        exact Nat.add_comm 1 (front.length + 1)
    · have hnone : lineFeed ∉ String.utf8EncodeChar c := fun hmem => hc (lineFeed_mem_encoded_iff.1 hmem)
      rw [Text.bytes_cons] at h
      obtain ⟨rest, rfl, hrest⟩ := exists_eq_append_of_prefix h hnone
      rw [bytesOfLines, if_neg hc, List.count_append, List.count_eq_zero_of_not_mem hnone, Nat.zero_add,
        bytesOfLines_of_prefix hrest, List.length_append, String.length_utf8EncodeChar, Nat.add_assoc]

theorem bytesOfLines_zero (t : Text) : bytesOfLines 0 t = 0 := by
  cases t <;> rfl

/-! ## The offset of a position -/

/-- What has been read are the lines before the one that the reader is in, and the column. -/
theorem bytesOfLines_after {source : Text} {read : List UInt8} (h : read <+: bytes source) :
    bytesOfLines ((Position.after read).line - 1) source + (Position.after read).column = read.length := by
  have hsplit := List.rdropWhile_append_rtakeWhile (p := (· ≠ lineFeed)) (l := read)
  have hnone : lineFeed ∉ read.rtakeWhile (· ≠ lineFeed) := fun hmem => by simpa using List.mem_rtakeWhile_imp hmem
  have hlines : (Position.after read).line - 1 = (read.rdropWhile (· ≠ lineFeed)).count lineFeed := by
    have hcount := congrArg (List.count lineFeed) hsplit
    rw [List.count_append, List.count_eq_zero_of_not_mem hnone, Nat.add_zero] at hcount
    rw [Position.after, hcount, Nat.add_sub_cancel_left]
  have hlength : (read.rdropWhile (· ≠ lineFeed)).length + (Position.after read).column = read.length := by
    rw [Position.after, ← List.length_append, hsplit]
  have hlast := List.rdropWhile_last_not (· ≠ lineFeed) read
  rw [hlines, ← hlength]
  congr 1
  obtain hnil | ⟨front, b, hfront⟩ := List.eq_nil_or_concat' (read.rdropWhile (· ≠ lineFeed))
  · rw [hnil, List.count_nil, bytesOfLines_zero, List.length_nil]
  · obtain rfl : b = lineFeed := by
      simp only [hfront, List.getLast_concat] at hlast
      simpa using hlast (by simp)
    have hprefix : front ++ [lineFeed] <+: bytes source := hfront ▸ (List.rdropWhile_prefix _ read).trans h
    rw [hfront, List.count_append, List.count_singleton_self, bytesOfLines_of_prefix hprefix, List.length_append,
      List.length_singleton]

theorem column_after_concat (read : List UInt8) (b : UInt8) :
    (Position.after (read ++ [b])).column = if b = lineFeed then 0 else (Position.after read).column + 1 := by
  by_cases hb : b = lineFeed
  · rw [if_pos hb, Position.after, List.rtakeWhile_concat_neg _ _ _ (by simp [hb]), List.length_nil]
  · rw [if_neg hb, Position.after, List.rtakeWhile_concat_pos _ _ _ (by simp [hb]), List.length_append,
      List.length_singleton, Position.after]

theorem offsetOf?_readUpTo {source : Text} {i offset : Nat}
    (hoffset : bytesOfLines ((readUpTo source i).line - 1) source + ((readUpTo source i).column - 1) = offset) :
    offsetOf? source (readUpTo source i).line (readUpTo source i).column =
      if offset < byteSize source then some offset else none := by
  have hline : (readUpTo source i).line ≠ 0 := by simp [readUpTo, Position.after]
  simp only [offsetOf?, hoffset, hline, ne_eq, not_false_eq_true, true_and]

section

variable {source : Text} {i : Nat} (h : i < (bytes source).length)

include h

theorem bytesOfLines_readUpTo :
    bytesOfLines ((readUpTo source i).line - 1) source + (readUpTo source i).column = i + 1 := by
  have hread := bytesOfLines_after (List.take_prefix (i + 1) (bytes source))
  rwa [List.length_take, Nat.min_eq_left h] at hread

theorem column_readUpTo : (readUpTo source i).column =
    if (bytes source)[i] = lineFeed then 0 else (Position.after ((bytes source).take i)).column + 1 := by
  rw [readUpTo, List.take_succ_eq_append_getElem h, column_after_concat]

theorem offsetOf?_readUpTo_of_ne (hb : (bytes source)[i] ≠ lineFeed) :
    offsetOf? source (readUpTo source i).line (readUpTo source i).column = some i := by
  have hread := bytesOfLines_readUpTo h
  have hcolumn := column_readUpTo h
  rw [if_neg hb] at hcolumn
  have hoffset : bytesOfLines ((readUpTo source i).line - 1) source + ((readUpTo source i).column - 1) = i := by omega
  rw [offsetOf?_readUpTo hoffset, if_pos (by rwa [← Text.length_bytes])]

/-- Column zero is taken for the start of the next line, which there need not be. -/
theorem offsetOf?_readUpTo_lineFeed (hb : (bytes source)[i] = lineFeed) :
    offsetOf? source (readUpTo source i).line (readUpTo source i).column =
      if i + 1 < byteSize source then some (i + 1) else none := by
  have hread := bytesOfLines_readUpTo h
  have hcolumn := column_readUpTo h
  rw [if_pos hb] at hcolumn
  exact offsetOf?_readUpTo (by omega)

end

/-- **An error is shown at the byte it was found at exactly if that is not a line feed.** At a line feed it is shown one
byte further, and if nothing comes after the line feed it is not shown at all. -/
theorem offsetOf?_readUpTo_eq_some_iff (source : Text) {i : Nat} (h : i < byteSize source) :
    (offsetOf? source (readUpTo source i).line (readUpTo source i).column = some i ↔
      (bytes source)[i]? ≠ some lineFeed) ∧
    ((bytes source)[i]? = some lineFeed →
      offsetOf? source (readUpTo source i).line (readUpTo source i).column =
        if i + 1 < byteSize source then some (i + 1) else none) ∧
    ((ofPosition? source (readUpTo source i).line (readUpTo source i).column).isSome = true ↔
      ¬ ((bytes source)[i]? = some lineFeed ∧ i + 1 = byteSize source)) := by
  have hi : i < (bytes source).length := by rwa [Text.length_bytes]
  simp only [List.getElem?_eq_getElem hi, Option.some.injEq, ofPosition?, Option.isSome_map, ne_eq]
  by_cases hb : (bytes source)[i] = lineFeed
  · rw [offsetOf?_readUpTo_lineFeed hi hb]
    by_cases hmore : i + 1 < byteSize source
    · simp [hb, hmore, Nat.ne_of_lt hmore]
    · have hend : i + 1 = byteSize source := by omega
      simp [hb, hend]
  · rw [offsetOf?_readUpTo_of_ne hi hb]
    simp [hb]

/-- Inside a character of two bytes, and at the line feed after it, which ends the text. -/
theorem offsetOf?_readUpTo_eq_some_iff_accent :
    1 < byteSize "é\n" ∧ offsetOf? "é\n" (readUpTo "é\n" 1).line (readUpTo "é\n" 1).column = some 1 ∧
    2 < byteSize "é\n" ∧ ofPosition? "é\n" (readUpTo "é\n" 2).line (readUpTo "é\n" 2).column = none := by
  have hinside := offsetOf?_readUpTo_eq_some_iff "é\n" (i := 1) (by decide)
  have hend := offsetOf?_readUpTo_eq_some_iff "é\n" (i := 2) (by decide)
  refine ⟨by decide, hinside.1.2 (by decide), by decide, ?_⟩
  exact Option.not_isSome_iff_eq_none.1 (fun hshown => hend.2.2.1 hshown ⟨by decide, by decide⟩)

/-- A text that breaks off after a line feed. -/
theorem not_forall_offsetOf?_readUpTo :
    ¬ ∀ (source : Text) (i : Nat), i < byteSize source →
      offsetOf? source (readUpTo source i).line (readUpTo source i).column = some i := by
  intro h
  exact absurd (h "[\n" 1 (by decide)) (by decide)

end Span
end IdeExport
