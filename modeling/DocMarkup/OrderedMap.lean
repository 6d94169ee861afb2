/-!
# Insertion-ordered maps

A finite map that lists its keys in the order in which they were first inserted. Inserting a
present key replaces the value where it stands; removing a key and inserting it again moves it to
the end. Properties of elements, inline styles and override maps are all of this kind.

## Main definitions

* `OrderedMap` : the entries in order, no key twice.
* `OrderedMap.insert`, `OrderedMap.erase`, `OrderedMap.get?`, `OrderedMap.overlay` : its operations.
-/

namespace DocMarkup

/-- A finite map whose entries keep the order in which their keys were first inserted. -/
structure OrderedMap (κ α : Type) where
  /-- The entries in order. -/
  entries : List (κ × α)
  /-- No key occurs twice. -/
  nodup_keys : (entries.map Prod.fst).Nodup

namespace OrderedMap

variable {κ α : Type}

/-- The keys in order. -/
def keys (m : OrderedMap κ α) : List κ := m.entries.map Prod.fst

/-- The map without entries. -/
def empty : OrderedMap κ α := ⟨[], by simp⟩

instance : EmptyCollection (OrderedMap κ α) := ⟨empty⟩

instance : Inhabited (OrderedMap κ α) := ⟨empty⟩

/-- The number of entries. -/
def size (m : OrderedMap κ α) : Nat := m.entries.length

/-- Whether there is no entry. -/
def isEmpty (m : OrderedMap κ α) : Bool := m.entries.isEmpty

@[ext] theorem ext {m n : OrderedMap κ α} (h : m.entries = n.entries) : m = n := by
  cases m; cases n; cases h; rfl

section
variable [DecidableEq κ]

instance [DecidableEq α] : DecidableEq (OrderedMap κ α) := fun m n =>
  if h : m.entries = n.entries then isTrue (ext h) else isFalse fun e => h (e ▸ rfl)

/-- Sets `k` to `v` in an entry list: in place if `k` is present, else at the end. -/
def put (k : κ) (v : α) : List (κ × α) → List (κ × α)
  | [] => [(k, v)]
  | e :: rest => if e.1 = k then (k, v) :: rest else e :: put k v rest

theorem map_fst_put (k : κ) (v : α) (es : List (κ × α)) :
    (put k v es).map Prod.fst =
      if k ∈ es.map Prod.fst then es.map Prod.fst else es.map Prod.fst ++ [k] := by
  induction es with
  | nil => simp [put]
  | cons e rest ih =>
    by_cases h : e.1 = k
    · simp [put, h]
    · have h' : ¬ k = e.1 := fun he => h he.symm
      by_cases hk : k ∈ rest.map Prod.fst <;> simp_all [put]

/-- Sets `k` to `v`, replacing an earlier value in place. -/
def insert (m : OrderedMap κ α) (k : κ) (v : α) : OrderedMap κ α where
  entries := put k v m.entries
  nodup_keys := by
    have h := m.nodup_keys
    rw [map_fst_put]
    split
    · exact h
    · rename_i hk
      refine List.nodup_append.2 ⟨h, by simp, fun a ha b hb he => hk ?_⟩
      rw [← List.mem_singleton.1 hb, ← he]
      exact ha

theorem keys_insert (m : OrderedMap κ α) (k : κ) (v : α) :
    (m.insert k v).keys = if k ∈ m.keys then m.keys else m.keys ++ [k] :=
  map_fst_put k v m.entries

/-- The value of `k`. -/
def get? (m : OrderedMap κ α) (k : κ) : Option α := m.entries.lookup k

/-- Whether `k` has a value. -/
def contains (m : OrderedMap κ α) (k : κ) : Bool := (m.get? k).isSome

/-- Drops the entry of `k`, if there is one. -/
def erase (m : OrderedMap κ α) (k : κ) : OrderedMap κ α where
  entries := m.entries.filter (·.1 ≠ k)
  nodup_keys := m.nodup_keys.sublist (List.filter_sublist.map _)

theorem keys_erase (m : OrderedMap κ α) (k : κ) : (m.erase k).keys = m.keys.filter (· ≠ k) := by
  simp only [keys, erase, List.filter_map]
  rfl

/-- The entries of `n` set one after the other on top of `m`. -/
def overlay (m n : OrderedMap κ α) : OrderedMap κ α :=
  n.entries.foldl (fun acc e => acc.insert e.1 e.2) m

/-- The map that results from setting the pairs in order. -/
def ofList (pairs : List (κ × α)) : OrderedMap κ α :=
  pairs.foldl (fun acc e => acc.insert e.1 e.2) ∅

end

end OrderedMap

end DocMarkup
