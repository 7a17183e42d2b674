import IdeExport.Toml.Token
/-!
# Writing TOML strings

Between the quotes of a string a quote has a backslash before it (`quoteAfterBackslash_escape`), and what is written
without a backslash is written as it is, so a plain text can be told from every other one (`escape_eq_iff`).
-/
namespace IdeExport
namespace Toml

/-- A character in a string.  One that may not stand there is written with its code point. -/
def escapeCharacter (c : Char) : Text :=
  if c = '"' then "\\\""
  else if c = '\\' then "\\\\"
  else if isPlain c then [c]
  else "\\u00" ++ [Text.hexDigit (c.toNat / 16), Text.hexDigit (c.toNat % 16)]

def escape (t : Text) : Text := t.flatMap escapeCharacter

def quoted (t : Text) : Text := "\"" ++ escape t ++ "\""

/-! ## Characters -/

/-- A character that is written as it is. -/
def IsLiteralCharacter (c : Char) : Prop := c ≠ '"' ∧ c ≠ '\\' ∧ isPlain c = true

instance : DecidablePred IsLiteralCharacter := fun _ => inferInstanceAs (Decidable (_ ∧ _))

def IsLiteral (t : Text) : Prop := ∀ c ∈ t, IsLiteralCharacter c

instance : DecidablePred IsLiteral := List.decidableBAll IsLiteralCharacter

theorem escapeCharacter_cases (c : Char) :
    c = '"' ∧ escapeCharacter c = ['\\', '"'] ∨ c = '\\' ∧ escapeCharacter c = ['\\', '\\'] ∨
    IsLiteralCharacter c ∧ escapeCharacter c = [c] ∨
    c.toNat < 128 ∧ escapeCharacter c =
      ['\\', 'u', '0', '0', Text.hexDigit (c.toNat / 16), Text.hexDigit (c.toNat % 16)] := by
  unfold escapeCharacter
  split
  · exact Or.inl ⟨‹_›, rfl⟩
  · rename_i hquote
    split
    · exact Or.inr (Or.inl ⟨‹_›, rfl⟩)
    · rename_i hbackslash
      split
      · exact Or.inr (Or.inr (Or.inl ⟨⟨hquote, hbackslash, ‹_›⟩, rfl⟩))
      · rename_i hplain
        have hsmall : c.toNat < 128 := by
          simp only [isPlain, Bool.or_eq_true, Bool.and_eq_true, decide_eq_true_eq, not_or, not_and] at hplain
          omega
        exact Or.inr (Or.inr (Or.inr ⟨hsmall, rfl⟩))

theorem escapeCharacter_of_isLiteralCharacter {c : Char} (h : IsLiteralCharacter c) : escapeCharacter c = [c] := by
  rw [escapeCharacter, if_neg h.1, if_neg h.2.1, if_pos h.2.2]

theorem hexDigit_ne_quote : ∀ n < 16, Text.hexDigit n ≠ '"' := by decide

/-! ## Texts -/

theorem escape_cons (c : Char) (t : Text) : escape (c :: t) = escapeCharacter c ++ escape t := List.flatMap_cons

theorem escape_of_isLiteral : ∀ {t : Text}, IsLiteral t → escape t = t
  | [], _ => rfl
  | c :: t, h => by
    obtain ⟨hc, ht⟩ := List.forall_mem_cons.1 h
    rw [escape_cons, escapeCharacter_of_isLiteralCharacter hc, escape_of_isLiteral ht, List.singleton_append]

theorem eq_of_backslash_notMem_escape : ∀ {t : Text}, '\\' ∉ escape t → escape t = t
  | [], _ => rfl
  | c :: t, h => by
    rw [escape_cons, List.mem_append, not_or] at h
    have hc : escapeCharacter c = [c] := by
      obtain ⟨-, hc⟩ | ⟨-, hc⟩ | ⟨-, hc⟩ | ⟨-, hc⟩ := escapeCharacter_cases c
      · simp [hc] at h
      · simp [hc] at h
      · exact hc
      · simp [hc] at h
    rw [escape_cons, hc, eq_of_backslash_notMem_escape h.2, List.singleton_append]

theorem escape_eq_iff {t literal : Text} (h : IsLiteral literal) : escape t = literal ↔ t = literal := by
  refine ⟨fun ht => ?_, fun ht => ht.symm ▸ escape_of_isLiteral h⟩
  have hbackslash : '\\' ∉ escape t := fun hmem => (h _ (ht ▸ hmem)).2.1 rfl
  exact (eq_of_backslash_notMem_escape hbackslash).symm.trans ht

/-! ## Quotes -/

/-- Before every quote of a text there is a backslash. -/
def QuoteAfterBackslash (t : Text) : Prop :=
  ∀ before after : Text, t = before ++ '"' :: after → before.getLast? = some '\\'

theorem QuoteAfterBackslash.of_notMem {t : Text} (h : '"' ∉ t) : QuoteAfterBackslash t := by
  rintro before after rfl
  exact absurd (List.mem_append_right before List.mem_cons_self) h

theorem QuoteAfterBackslash.append {s t : Text} (hs : QuoteAfterBackslash s) (ht : QuoteAfterBackslash t) :
    QuoteAfterBackslash (s ++ t) := by
  intro before after h
  obtain ⟨more, rfl, hmore⟩ | ⟨more, rfl, hmore⟩ := List.append_eq_append_iff.1 h
  · rw [List.getLast?_append, ht more after hmore, Option.some_or]
  · cases more with
    | nil =>
      have hfirst := ht [] after (by simpa using hmore.symm)
      simp at hfirst
    | cons c more =>
      obtain ⟨rfl, -⟩ := List.cons.inj hmore
      exact hs before more rfl

theorem quoteAfterBackslash_escapeCharacter (c : Char) : QuoteAfterBackslash (escapeCharacter c) := by
  obtain ⟨-, hc⟩ | ⟨-, hc⟩ | ⟨hliteral, hc⟩ | ⟨hsmall, hc⟩ := escapeCharacter_cases c
  · rintro before after h
    rw [hc] at h
    match before, h with
    | [b], h => exact congrArg some (List.cons.inj h).1.symm
    | b :: b' :: before, h => simp at h
  · exact .of_notMem (by simp [hc])
  · exact .of_notMem (by simpa [hc] using Ne.symm hliteral.1)
  · have hhigh := hexDigit_ne_quote (c.toNat / 16) (by omega)
    have hlow := hexDigit_ne_quote (c.toNat % 16) (by omega)
    exact .of_notMem (by simp [hc, Ne.symm hhigh, Ne.symm hlow])

theorem quoteAfterBackslash_escape : ∀ t : Text, QuoteAfterBackslash (escape t)
  | [] => .of_notMem List.not_mem_nil
  | c :: t => escape_cons c t ▸ (quoteAfterBackslash_escapeCharacter c).append (quoteAfterBackslash_escape t)

end Toml
end IdeExport
