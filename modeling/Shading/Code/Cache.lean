/-!
# Caches

A cache that counts hits and misses, and that gives up its oldest entry once it is full.

Main definitions:

- `Cache` is the type of caches; its entries are listed from the oldest to the newest.
- `Cache.lookup` reads an entry and counts, `Cache.insert` writes one.
-/

namespace Shading

/-- A cache, with an optional bound on the number of its entries. -/
structure Cache (κ υ : Type) where
  entries : List (κ × υ)
  capacity : Option Nat
  hits : Nat
  misses : Nat
  deriving DecidableEq

namespace Cache

variable {κ υ : Type}

/-- A cache without a bound. -/
def unbounded : Cache κ υ :=
  ⟨[], none, 0, 0⟩

/-- A cache with at most the given number of entries, but room for one. -/
def bounded (capacity : Nat) : Cache κ υ :=
  ⟨[], some (max capacity 1), 0, 0⟩

/-- The number of entries. -/
def size (c : Cache κ υ) : Nat :=
  c.entries.length

/-- The value of a key. -/
def find? [DecidableEq κ] (c : Cache κ υ) (key : κ) : Option υ :=
  (c.entries.find? fun e => decide (e.1 = key)).map (·.2)

/-- Reads the value of a key and counts a hit or a miss. -/
def lookup [DecidableEq κ] (c : Cache κ υ) (key : κ) : Option υ × Cache κ υ :=
  match c.find? key with
  | some value => (some value, { c with hits := c.hits + 1 })
  | none => (none, { c with misses := c.misses + 1 })

/-- Drops the oldest entries beyond the bound. -/
def evict (capacity : Option Nat) (entries : List (κ × υ)) : List (κ × υ) :=
  match capacity with
  | none => entries
  | some n => entries.drop (entries.length - n)

/-- Writes the value of a key.  A key that is there keeps its age. -/
def insert [DecidableEq κ] (c : Cache κ υ) (key : κ) (value : υ) : Cache κ υ :=
  let entries :=
    if (c.find? key).isSome then
      c.entries.map fun e => if e.1 = key then (key, value) else e
    else c.entries ++ [(key, value)]
  { c with entries := evict c.capacity entries }

/-- Drops all entries; the counts stay. -/
def clear (c : Cache κ υ) : Cache κ υ :=
  { c with entries := [] }

end Cache

end Shading
