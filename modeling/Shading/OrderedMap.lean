/-!
# Maps with ordered keys

A finite map as the list of its entries, in ascending order of the keys.  Writing an
entry keeps the order, so two maps with the same entries are listed alike.

Main definitions:

- `OrderedMap` is the type of maps, `OrderedMap.entries` its view as a list.
- `OrderedMap.find?`, `OrderedMap.insert` and `OrderedMap.erase` read, write and
  remove one entry.
-/

namespace Shading

/-- A finite map, listed by key. -/
structure OrderedMap (κ υ : Type) where
  entries : List (κ × υ)
  deriving Repr, DecidableEq

namespace OrderedMap

variable {κ υ : Type}

/-- The map without entries. -/
def empty : OrderedMap κ υ :=
  ⟨[]⟩

instance : Inhabited (OrderedMap κ υ) := ⟨empty⟩

/-- The number of entries. -/
def size (m : OrderedMap κ υ) : Nat :=
  m.entries.length

/-- The value of a key. -/
def find? [DecidableEq κ] (m : OrderedMap κ υ) (key : κ) : Option υ :=
  (m.entries.find? fun e => decide (e.1 = key)).map (·.2)

/-- Whether a key has a value. -/
def contains [DecidableEq κ] (m : OrderedMap κ υ) (key : κ) : Bool :=
  (m.find? key).isSome

/-- Writes an entry into a list of entries in ascending order. -/
def insertEntry [LT κ] [DecidableLT κ] (key : κ) (value : υ) : List (κ × υ) → List (κ × υ)
  | [] => [(key, value)]
  | (k, v) :: rest =>
    if key < k then (key, value) :: (k, v) :: rest
    else if k < key then (k, v) :: insertEntry key value rest
    else (key, value) :: rest

/-- Gives a key a value, in place of the value it had. -/
def insert [LT κ] [DecidableLT κ] (m : OrderedMap κ υ) (key : κ) (value : υ) : OrderedMap κ υ :=
  ⟨insertEntry key value m.entries⟩

/-- A written entry is found, and no other entry changes. -/
theorem find?_insert [LT κ] [DecidableLT κ] [DecidableEq κ]
    (trichotomy : ∀ a b : κ, ¬a < b → ¬b < a → a = b) (m : OrderedMap κ υ) (key : κ) (value : υ)
    (other : κ) :
    (m.insert key value).find? other = if key = other then some value else m.find? other := by
  obtain ⟨entries⟩ := m
  unfold insert find?
  dsimp only
  induction entries with
  | nil =>
    by_cases h : key = other <;> simp [insertEntry, h]
  | cons entry rest ih =>
    obtain ⟨k, v⟩ := entry
    unfold insertEntry
    by_cases hlt : key < k
    · rw [if_pos hlt]
      by_cases h : key = other <;> simp [h]
    · rw [if_neg hlt]
      by_cases hgt : k < key
      · rw [if_pos hgt]
        by_cases hk : k = other
        · have hne : key ≠ other := by
            rintro rfl
            exact hlt (hk ▸ hgt)
          simp [hk, hne]
        · simp [hk, ih]
      · rw [if_neg hgt]
        obtain rfl : key = k := trichotomy key k hlt hgt
        by_cases h : key = other <;> simp [h]

/-- Removes the value of a key. -/
def erase [DecidableEq κ] (m : OrderedMap κ υ) (key : κ) : OrderedMap κ υ :=
  ⟨m.entries.filter fun e => !decide (e.1 = key)⟩

/-- The map with the given entries; the last entry of a key counts. -/
def ofList [LT κ] [DecidableLT κ] (entries : List (κ × υ)) : OrderedMap κ υ :=
  entries.foldl (fun m e => m.insert e.1 e.2) empty

end OrderedMap

end Shading
