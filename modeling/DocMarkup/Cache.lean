import DocMarkup.Decimal.Natural

/-!
# Least recently used caches

A cache of bounded size. Its entries are listed by their latest use, most recent first; when a new
key finds the cache full, the last entry gives way to it. A cache of capacity zero holds nothing.

## Main definitions

* `Cache` : the entries, most recent first.
* `Cache.get`, `Cache.put`, `Cache.clear` : operations that use or drop entries.
* `Cache.peek`, `Cache.contains` : looking without using.
-/

namespace DocMarkup

/-- A cache of bounded size. -/
structure Cache (κ α : Type) where
  /-- How many entries it holds at most. -/
  capacity : Nat
  /-- The entries, most recently used first. -/
  entries : List (κ × α)

namespace Cache

variable {κ α : Type} [DecidableEq κ]

/-- The capacity of a cache that is given none. -/
def defaultCapacity : Nat := 100

/-- The cache that holds nothing yet. -/
def empty (capacity : Nat) : Cache κ α := ⟨capacity, []⟩

/-- The keys, most recently used first. -/
def keys (c : Cache κ α) : List κ := c.entries.map Prod.fst

/-- The number of entries. -/
def size (c : Cache κ α) : Nat := c.entries.length

/-- The value of a key, without using it. -/
def peek (c : Cache κ α) (k : κ) : Option α := c.entries.lookup k

/-- Whether the key has a value, without using it. -/
def contains (c : Cache κ α) (k : κ) : Bool := (c.peek k).isSome

/-- The entries of all other keys. -/
def others (c : Cache κ α) (k : κ) : List (κ × α) := c.entries.filter (·.1 ≠ k)

/-- The value of a key, which becomes the most recently used. -/
def get (c : Cache κ α) (k : κ) : Option α × Cache κ α :=
  match c.peek k with
  | some v => (some v, { c with entries := (k, v) :: c.others k })
  | none => (none, c)

/-- Sets a key, which becomes the most recently used, and gives back the entry that had to make
room. Without any capacity that is the new entry itself; where the key is present, none. -/
def put (c : Cache κ α) (k : κ) (v : α) : Option (κ × α) × Cache κ α :=
  if c.capacity = 0 then (some (k, v), c)
  else if c.contains k then (none, { c with entries := (k, v) :: c.others k })
  else if c.entries.length < c.capacity then (none, { c with entries := (k, v) :: c.entries })
  else (c.entries.getLast?, { c with entries := (k, v) :: c.entries.dropLast })

/-- Drops every entry. -/
def clear (c : Cache κ α) : Cache κ α := { c with entries := [] }

/-- The cache as messages show it. -/
def describe (c : Cache κ α) : String :=
  "LruCache \x7b capacity: " ++ Decimal.text c.capacity ++ ", len: " ++ Decimal.text c.size ++
    ", .. \x7d"

end Cache

end DocMarkup
