/-!
# Finite tables

A table is a list of key and value pairs in which a new entry replaces the old one of
its key. Look-up is structural, so closed look-ups evaluate in the kernel, and each
operation is described by what `get?` answers afterwards.
-/

namespace DeclTree

/-- Values by key; the newest entry stands first. -/
structure Table (κ α : Type) where
  entries : List (κ × α)
deriving Repr

namespace Table

variable {κ α : Type} [DecidableEq κ]

/-- The table without entries. -/
def empty : Table κ α := ⟨[]⟩

instance : EmptyCollection (Table κ α) := ⟨empty⟩

/-- The value of a key in a list of entries. -/
def lookup (key : κ) : List (κ × α) → Option α
  | [] => none
  | (k, v) :: rest => if k = key then some v else lookup key rest

def get? (table : Table κ α) (key : κ) : Option α :=
  lookup key table.entries

def contains (table : Table κ α) (key : κ) : Bool :=
  (table.get? key).isSome

def erase (table : Table κ α) (key : κ) : Table κ α :=
  ⟨table.entries.filter fun entry => entry.1 ≠ key⟩

/-- Adds an entry, replacing the one that had its key. -/
def insert (table : Table κ α) (key : κ) (value : α) : Table κ α :=
  ⟨(key, value) :: (table.erase key).entries⟩

theorem lookup_filter_self (key : κ) (entries : List (κ × α)) :
    lookup key (entries.filter fun entry => entry.1 ≠ key) = none := by
  induction entries with
  | nil => rfl
  | cons entry rest ih =>
      by_cases h : entry.1 = key
      · rw [List.filter_cons_of_neg (by simp [h])]
        exact ih
      · rw [List.filter_cons_of_pos (by simp [h]), lookup, if_neg h]
        exact ih

theorem lookup_filter_ne {key other : κ} (h : other ≠ key) (entries : List (κ × α)) :
    lookup other (entries.filter fun entry => entry.1 ≠ key) = lookup other entries := by
  induction entries with
  | nil => rfl
  | cons entry rest ih =>
      by_cases hk : entry.1 = key
      · have ho : entry.1 ≠ other := fun e => h (e ▸ hk)
        rw [List.filter_cons_of_neg (by simp [hk]), lookup, if_neg ho]
        exact ih
      · rw [List.filter_cons_of_pos (by simp [hk]), lookup, lookup, ih]

@[simp] theorem get?_empty (key : κ) : (∅ : Table κ α).get? key = none := rfl

@[simp] theorem get?_erase_self (table : Table κ α) (key : κ) :
    (table.erase key).get? key = none :=
  lookup_filter_self key table.entries

theorem get?_erase_ne (table : Table κ α) {key other : κ} (h : other ≠ key) :
    (table.erase key).get? other = table.get? other :=
  lookup_filter_ne h table.entries

@[simp] theorem get?_insert_self (table : Table κ α) (key : κ) (value : α) :
    (table.insert key value).get? key = some value := by
  simp [insert, get?, lookup]

theorem get?_insert_ne (table : Table κ α) {key other : κ} (h : other ≠ key) (value : α) :
    (table.insert key value).get? other = table.get? other := by
  have hk : key ≠ other := fun e => h e.symm
  simpa [insert, get?, lookup, hk] using table.get?_erase_ne h

end Table

end DeclTree
