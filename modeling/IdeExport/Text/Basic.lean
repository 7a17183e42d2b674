/-!
# Text

Names, paths, flags and whole files are lists of characters.  A list is what every scan in this library
walks, so its recursion is structural and its laws are list laws; a `String` appears only where a program
meets its input and output.  String literals coerce, so a constant is still written as one.

Offsets are counted in bytes of the UTF-8 encoding (`byteSize`), and the order of lists is the order by
code point, which is the order of the encoded bytes.
-/
namespace IdeExport

abbrev Text := List Char

instance : Coe String Text := ⟨String.toList⟩

namespace Text

/-! ## Splitting and joining -/

/-- A character put in front of the first piece. -/
def attach (c : Char) : List Text → List Text
  | [] => [[c]]
  | piece :: pieces => (c :: piece) :: pieces

theorem attach_ne_nil (c : Char) (pieces : List Text) : attach c pieces ≠ [] := by
  cases pieces <;> simp [attach]

/-- The pieces between the occurrences of a separator.  There is always at least one. -/
def split (sep : Char) : Text → List Text
  | [] => [[]]
  | c :: cs => if c = sep then [] :: split sep cs else attach c (split sep cs)

theorem split_ne_nil (sep : Char) (t : Text) : split sep t ≠ [] := by
  cases t with
  | nil => simp [split]
  | cons c cs =>
    unfold split
    split
    · simp
    · exact attach_ne_nil c _

theorem not_mem_of_mem_split {sep : Char} : ∀ {t piece : Text}, piece ∈ split sep t → sep ∉ piece
  | [], piece, h => by
    rw [split, List.mem_singleton] at h
    rw [h]
    exact List.not_mem_nil
  | c :: cs, piece, h => by
    unfold split at h
    split at h
    · rcases List.mem_cons.1 h with rfl | h
      · exact List.not_mem_nil
      · exact not_mem_of_mem_split h
    · rename_i hc
      have hcs := fun p (hp : p ∈ split sep cs) => not_mem_of_mem_split hp
      cases hpieces : split sep cs with
      | nil => exact absurd hpieces (split_ne_nil sep cs)
      | cons first others =>
        rw [hpieces] at h hcs
        rcases List.mem_cons.1 h with rfl | h
        · rw [List.mem_cons, not_or]
          exact ⟨fun e => hc e.symm, hcs first (List.mem_cons_self ..)⟩
        · exact hcs piece (List.mem_cons_of_mem _ h)

theorem split_of_not_mem {sep : Char} : ∀ {t : Text}, sep ∉ t → split sep t = [t]
  | [], _ => rfl
  | c :: cs, h => by
    rw [List.mem_cons, not_or] at h
    rw [split, if_neg (fun e => h.1 e.symm), split_of_not_mem h.2, attach]

theorem attach_append (c : Char) {pieces : List Text} (others : List Text) (h : pieces ≠ []) :
    attach c (pieces ++ others) = attach c pieces ++ others := by
  cases pieces with
  | nil => exact absurd rfl h
  | cons piece pieces => rfl

theorem split_append_sep (sep : Char) (rest : Text) : ∀ t : Text,
    split sep (t ++ sep :: rest) = split sep t ++ split sep rest
  | [] => by rw [List.nil_append, split, split, if_pos rfl, List.singleton_append]
  | c :: cs => by
    rw [List.cons_append, split, split]
    split
    · rw [split_append_sep sep rest cs, List.cons_append]
    · rw [split_append_sep sep rest cs, attach_append c _ (split_ne_nil sep cs)]

/-- A text up to its first separator is its first piece. -/
theorem split_append_cons {sep : Char} {rest t : Text} (h : sep ∉ t) :
    split sep (t ++ sep :: rest) = t :: split sep rest := by
  rw [split_append_sep, split_of_not_mem h, List.singleton_append]

def splitLast (sep : Char) : Text → Option (Text × Text)
  | [] => none
  | c :: cs =>
    match splitLast sep cs with
    | some (before, after) => some (c :: before, after)
    | none => if c = sep then some ([], cs) else none

theorem not_mem_of_splitLast_eq_none {sep : Char} : ∀ {t : Text}, splitLast sep t = none → sep ∉ t
  | [], _ => by simp
  | c :: cs, h => by
    unfold splitLast at h
    split at h
    · cases h
    · rename_i hcs
      split at h
      · cases h
      · rename_i hc
        simp only [List.mem_cons, not_or]
        exact ⟨fun e => hc e.symm, not_mem_of_splitLast_eq_none hcs⟩

theorem splitLast_eq_some {sep : Char} : ∀ {t before after : Text},
    splitLast sep t = some (before, after) → t = before ++ sep :: after ∧ sep ∉ after
  | [], _, _, h => by simp [splitLast] at h
  | c :: cs, before, after, h => by
    unfold splitLast at h
    split at h
    · rename_i b a hcs
      obtain ⟨rfl, rfl⟩ : c :: b = before ∧ a = after := by simpa using h
      obtain ⟨h1, h2⟩ := splitLast_eq_some hcs
      exact ⟨by simp [h1], h2⟩
    · rename_i hcs
      split at h
      · rename_i hc
        obtain ⟨rfl, rfl⟩ : [] = before ∧ cs = after := by simpa using h
        exact ⟨by simp [hc], not_mem_of_splitLast_eq_none hcs⟩
      · cases h

theorem splitLast_of_not_mem {sep : Char} : ∀ {t : Text}, sep ∉ t → splitLast sep t = none
  | [], _ => rfl
  | c :: cs, h => by
    rw [List.mem_cons, not_or] at h
    simp [splitLast, splitLast_of_not_mem h.2, Ne.symm h.1]

theorem splitLast_append {sep : Char} {after : Text} (h : sep ∉ after) : ∀ before : Text,
    splitLast sep (before ++ sep :: after) = some (before, after)
  | [] => by simp [splitLast, splitLast_of_not_mem h]
  | c :: cs => by simp [splitLast, splitLast_append h cs]

def join (sep : Text) (pieces : List Text) : Text := sep.intercalate pieces

theorem join_cons (sep piece : Text) {pieces : List Text} (h : pieces ≠ []) :
    join sep (piece :: pieces) = piece ++ (sep ++ join sep pieces) := by
  obtain ⟨next, others, rfl⟩ := List.exists_cons_of_ne_nil h
  rw [join, List.intercalate_cons_cons, List.append_assoc]
  rfl

theorem join_append (sep : Text) {others : List Text} (hothers : others ≠ []) : ∀ {pieces : List Text}, pieces ≠ [] →
    join sep (pieces ++ others) = join sep pieces ++ (sep ++ join sep others)
  | [piece], _ => by
    rw [List.singleton_append, join_cons _ _ hothers, show join sep [piece] = piece from List.intercalate_singleton]
  | piece :: next :: pieces, _ => by
    rw [List.cons_append, join_cons _ _ (List.append_ne_nil_of_right_ne_nil _ hothers),
      join_append sep hothers (List.cons_ne_nil _ _), join_cons _ _ (List.cons_ne_nil _ _)]
    simp only [List.append_assoc]

/-- Joined pieces are taken apart again, if none of them holds the separator. -/
theorem split_join {sep : Char} : ∀ {pieces : List Text}, pieces ≠ [] → (∀ piece ∈ pieces, sep ∉ piece) →
    split sep (join [sep] pieces) = pieces
  | [piece], _, h => by
    rw [join, List.intercalate_singleton]
    exact split_of_not_mem (h piece (List.mem_singleton_self _))
  | piece :: next :: pieces, _, h => by
    obtain ⟨hpiece, hpieces⟩ := List.forall_mem_cons.1 h
    rw [join_cons _ _ (List.cons_ne_nil _ _), List.singleton_append, split_append_cons hpiece,
      split_join (List.cons_ne_nil _ _) hpieces]

theorem join_attach (sep : Text) (c : Char) {pieces : List Text} (h : pieces ≠ []) :
    join sep (attach c pieces) = c :: join sep pieces := by
  obtain ⟨piece, others, rfl⟩ := List.exists_cons_of_ne_nil h
  rw [attach]
  by_cases hothers : others = []
  · rw [hothers, join, join, List.intercalate_singleton, List.intercalate_singleton]
  · rw [join_cons _ _ hothers, join_cons _ _ hothers, List.cons_append]

theorem join_split (sep : Char) : ∀ t : Text, join [sep] (split sep t) = t
  | [] => List.intercalate_singleton
  | c :: cs => by
    unfold split
    split
    · rename_i hc
      rw [join_cons _ _ (split_ne_nil sep cs), join_split sep cs, hc, List.nil_append, List.singleton_append]
    · rw [join_attach _ _ (split_ne_nil sep cs), join_split sep cs]

/-- A text followed by a terminator, for each of the texts. -/
def terminated (stop : Text) (pieces : List Text) : Text := pieces.flatMap (· ++ stop)

theorem terminated_cons (stop piece : Text) (pieces : List Text) :
    terminated stop (piece :: pieces) = piece ++ (stop ++ terminated stop pieces) := by
  rw [terminated, List.flatMap_cons, List.append_assoc]
  rfl

theorem join_concat (stop last : Text) : ∀ pieces : List Text,
    join stop (pieces ++ [last]) = terminated stop pieces ++ last
  | [] => List.intercalate_singleton
  | piece :: pieces => by
    rw [List.cons_append, join_cons _ _ (List.append_ne_nil_of_right_ne_nil _ (List.cons_ne_nil _ _)),
      join_concat stop last pieces, terminated_cons]
    simp only [List.append_assoc]

theorem terminated_append (stop : Text) (pieces others : List Text) :
    terminated stop (pieces ++ others) = terminated stop pieces ++ terminated stop others := List.flatMap_append

theorem terminated_eq_join (stop : Text) {pieces : List Text} (h : pieces ≠ []) :
    terminated stop pieces = join stop pieces ++ stop := by
  obtain ⟨front, last, rfl⟩ : ∃ front last, pieces = front ++ [last] := ⟨_, _, (List.dropLast_concat_getLast h).symm⟩
  rw [join_concat, terminated_append, terminated, terminated, List.flatMap_singleton, List.append_assoc]

/-- Terminated pieces and a last one are taken apart again, if none of them holds the terminator. -/
theorem split_terminated {sep : Char} {last : Text} (hlast : sep ∉ last) : ∀ {pieces : List Text},
    (∀ piece ∈ pieces, sep ∉ piece) → split sep (terminated [sep] pieces ++ last) = pieces ++ [last]
  | [], _ => split_of_not_mem hlast
  | piece :: pieces, h => by
    obtain ⟨hpiece, hpieces⟩ := List.forall_mem_cons.1 h
    rw [terminated_cons, List.append_assoc, List.append_assoc, List.singleton_append, split_append_cons hpiece,
      split_terminated hlast hpieces, List.cons_append]

/-! ## Searching -/

def occursIn (pattern : Text) : Text → Bool
  | [] => pattern.isEmpty
  | c :: cs => pattern.isPrefixOf (c :: cs) || occursIn pattern cs

theorem occursIn_iff_isInfix (pattern : Text) : ∀ t : Text, occursIn pattern t = true ↔ pattern <:+: t
  | [] => by rw [occursIn, List.isEmpty_iff, List.infix_nil]
  | c :: cs => by
    rw [occursIn, Bool.or_eq_true, List.isPrefixOf_iff_prefix, occursIn_iff_isInfix pattern cs, List.infix_cons_iff]

/-- The byte positions at which a pattern occurs, from left to right and without overlaps.  `skip` counts
the characters of an occurrence that is being passed over. -/
def occurrencesFrom (pattern : Text) (skip position : Nat) : Text → List Nat
  | [] => []
  | c :: cs =>
    match skip with
    | skip + 1 => occurrencesFrom pattern skip (position + c.utf8Size) cs
    | 0 =>
      if pattern.isPrefixOf (c :: cs) then
        position :: occurrencesFrom pattern (pattern.length - 1) (position + c.utf8Size) cs
      else occurrencesFrom pattern 0 (position + c.utf8Size) cs

def occurrences (pattern text : Text) : List Nat := occurrencesFrom pattern 0 0 text

/-- The scan of `replaceAll`; `skip` counts as in `occurrencesFrom`. -/
def replaceFrom (pattern new : Text) (skip : Nat) : Text → Text
  | [] => []
  | c :: cs =>
    match skip with
    | skip + 1 => replaceFrom pattern new skip cs
    | 0 =>
      if pattern.isPrefixOf (c :: cs) then new ++ replaceFrom pattern new (pattern.length - 1) cs
      else c :: replaceFrom pattern new 0 cs

/-- Every occurrence of a non-empty pattern replaced, from left to right and without overlaps. -/
def replaceAll (pattern new text : Text) : Text := replaceFrom pattern new 0 text

theorem replaceFrom_length_append (pattern new t : Text) : ∀ passed : Text,
    replaceFrom pattern new passed.length (passed ++ t) = replaceAll pattern new t
  | [] => rfl
  | _ :: passed => replaceFrom_length_append pattern new t passed

theorem replaceAll_pattern_append (c : Char) (pattern new t : Text) :
    replaceAll (c :: pattern) new (c :: pattern ++ t) = new ++ replaceAll (c :: pattern) new t := by
  have hstarts : (c :: pattern).isPrefixOf (c :: (pattern ++ t)) = true :=
    List.isPrefixOf_iff_prefix.2 (List.prefix_append (c :: pattern) t)
  rw [List.cons_append, replaceAll, replaceFrom, if_pos hstarts]
  exact congrArg (new ++ ·) (replaceFrom_length_append (c :: pattern) new t pattern)

theorem replaceAll_cons_of_not_prefix_cons {pattern new : Text} {c : Char} {cs : Text} (h : ¬ pattern <+: c :: cs) :
    replaceAll pattern new (c :: cs) = c :: replaceAll pattern new cs := by
  rw [replaceAll, replaceFrom, if_neg (fun hstarts => h (List.isPrefixOf_iff_prefix.1 hstarts))]
  rfl

/-- A text in which no occurrence can begin stays as it is. -/
theorem replaceAll_append_of_not_mem {c : Char} {pattern new t : Text} : ∀ {before : Text}, c ∉ before →
    replaceAll (c :: pattern) new (before ++ t) = before ++ replaceAll (c :: pattern) new t
  | [], _ => rfl
  | d :: before, h => by
    rw [List.mem_cons, not_or] at h
    have hstarts : ¬ c :: pattern <+: d :: (before ++ t) := fun hp => h.1 (List.cons_prefix_cons.1 hp).1
    rw [List.cons_append, replaceAll_cons_of_not_prefix_cons hstarts, replaceAll_append_of_not_mem h.2,
      List.cons_append]

def dropLeading? (pattern text : Text) : Option Text :=
  if pattern.isPrefixOf text then some (text.drop pattern.length) else none

/-! ## Measures -/

def byteSize : Text → Nat
  | [] => 0
  | c :: cs => c.utf8Size + byteSize cs

@[simp] theorem byteSize_nil : byteSize [] = 0 := rfl

@[simp] theorem byteSize_cons (c : Char) (cs : Text) : byteSize (c :: cs) = c.utf8Size + byteSize cs := rfl

@[simp] theorem byteSize_append (t : Text) : ∀ s : Text, byteSize (s ++ t) = byteSize s + byteSize t
  | [] => by simp
  | c :: s => by simp [byteSize_append t s, Nat.add_assoc]

def ofNat (n : Nat) : Text := (toString n).toList

/-- Lower case for the letters `A` to `Z`; every other character stays. -/
def lowerAscii (t : Text) : Text := t.map Char.toLower

end Text

end IdeExport
