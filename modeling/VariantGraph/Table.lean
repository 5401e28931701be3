/-!
# Tables: maps keyed by strings, kept in key order

A table is a list of entries with strictly increasing keys. Keys are compared code point by code
point, which is also the order of their UTF-8 bytes, so walking a table, printing it and choosing
"the first" entry of it never depend on the order in which entries came in.

The look-up laws (`find?_insert`, `find?_erase`) hold of every entry list, sorted or not; sortedness
(`Table.Ordered`) is what makes two tables with the same look-ups equal.
-/
namespace VariantGraph

/-- Entries in increasing key order. -/
abbrev Table (α : Type) := List (String × α)

namespace Table

variable {α β : Type}

/-- The invariant of a table: every key is smaller than all keys after it. -/
def Ordered (t : Table α) : Prop := t.Pairwise fun a b => a.1 < b.1

/-- The value stored under a key. -/
def find? : Table α → String → Option α
  | [], _ => none
  | (name, value) :: rest, key => if name = key then some value else find? rest key

/-- Whether a key is present. -/
def has (t : Table α) (key : String) : Bool := (find? t key).isSome

/-- Puts a value under a key, replacing the one that was there. -/
def insert : Table α → String → α → Table α
  | [], key, value => [(key, value)]
  | (name, old) :: rest, key, value =>
    if name = key then (key, value) :: rest
    else if key < name then (key, value) :: (name, old) :: rest
    else (name, old) :: insert rest key value

/-- Takes a key out. -/
def erase : Table α → String → Table α
  | [], _ => []
  | (name, value) :: rest, key =>
    if name = key then erase rest key else (name, value) :: erase rest key

/-- The keys, in order. -/
def keys (t : Table α) : List String := t.map (·.1)

/-- The values, in the order of their keys. -/
def values (t : Table α) : List α := t.map (·.2)

/-- The table of some entries given in any order; of two entries with one key the later counts. -/
def ofEntries (entries : List (String × α)) : Table α :=
  entries.foldl (fun t entry => insert t entry.1 entry.2) []

/-- Applies a function to every value. -/
def mapValues (f : α → β) (t : Table α) : Table β := t.map fun entry => (entry.1, f entry.2)

/-- Applies a function to the value under a key, if there is one. -/
def modify (t : Table α) (key : String) (f : α → α) : Table α :=
  match find? t key with
  | some value => insert t key (f value)
  | none => t

/-- All entries of the second table put into the first. -/
def union (t extra : Table α) : Table α :=
  extra.foldl (fun t entry => insert t entry.1 entry.2) t

/-! ## Look-up laws -/

theorem find?_insert (t : Table α) (key name : String) (value : α) :
    find? (insert t key value) name = if key = name then some value else find? t name := by
  induction t with
  | nil => simp [insert, find?]
  | cons entry rest ih =>
    obtain ⟨k, v⟩ := entry
    unfold insert
    split
    · next h => subst h; by_cases hk : k = name <;> simp [find?, hk]
    · next h =>
      split
      · simp [find?]
      · by_cases hk : k = name
        · subst hk; simp [find?, Ne.symm h]
        · simp [find?, hk, ih]

theorem find?_erase (t : Table α) (key name : String) :
    find? (erase t key) name = if key = name then none else find? t name := by
  induction t with
  | nil => simp [erase, find?]
  | cons entry rest ih =>
    obtain ⟨k, v⟩ := entry
    by_cases h : k = key
    · rw [erase, if_pos h, ih]
      by_cases hn : key = name
      · simp [hn]
      · simp [find?, hn, h]
    · rw [erase, if_neg h]
      by_cases hn : k = name
      · subst hn; simp [find?, Ne.symm h]
      · simp [find?, hn, ih]

end Table
end VariantGraph
