import IdeExport.SortedList
import IdeExport.Text.Basic
/-!
# Maps from texts

Finite maps with their keys in order, so that equal maps are written alike.
-/
namespace IdeExport

structure TextMap (β : Type) where
  entries : List (Text × β) := []
  sorted : (entries.map (·.1)).Pairwise (· < ·) := by simp
  deriving DecidableEq, Repr

namespace TextMap

variable {β : Type}

def empty : TextMap β := {}

def get? (m : TextMap β) (key : Text) : Option β := m.entries.lookup key

theorem pairwise_keys_alter {key : Text} {f : Option β → β} {entries : List (Text × β)}
    (h : (entries.map (·.1)).Pairwise (· < ·)) : ((SortedList.alter key f entries).map (·.1)).Pairwise (· < ·) :=
  SortedList.pairwise_keys_alter h

def set (m : TextMap β) (key : Text) (b : β) : TextMap β :=
  ⟨SortedList.alter key (fun _ => b) m.entries, pairwise_keys_alter m.sorted⟩

/-- The map of a list of pairs.  Of the values of one key the last one counts. -/
def ofList (pairs : List (Text × β)) : TextMap β := pairs.foldl (fun m p => m.set p.1 p.2) empty

theorem entries_foldl_set : ∀ {pairs : List (Text × β)} {m : TextMap β},
    ((m.entries ++ pairs).map (·.1)).Pairwise (· < ·) →
    (pairs.foldl (fun m p => m.set p.1 p.2) m).entries = m.entries ++ pairs
  | [], m, _ => (List.append_nil m.entries).symm
  | (key, b) :: pairs, m, h => by
    have hbelow : ∀ k ∈ m.entries.map (·.1), k < key := by
      rw [List.map_append, List.pairwise_append] at h
      exact fun k hk => h.2.2 k hk key List.mem_cons_self
    have hset : (m.set key b).entries = m.entries ++ [(key, b)] := SortedList.alter_of_forall_lt hbelow
    have hsorted : (((m.set key b).entries ++ pairs).map (·.1)).Pairwise (· < ·) := by
      rwa [hset, List.append_assoc, List.singleton_append]
    rw [List.foldl_cons, entries_foldl_set hsorted, hset, List.append_assoc, List.singleton_append]

theorem ofList_entries (m : TextMap β) : ofList m.entries = m := by
  have hentries : (ofList m.entries).entries = m.entries := entries_foldl_set (m := empty) m.sorted
  obtain ⟨entries, sorted⟩ := m
  generalize hmap : ofList entries = other at hentries
  obtain ⟨others, sorted'⟩ := other
  cases hentries
  rfl

end TextMap
end IdeExport
