/-!
# Dictionaries

Attribute and reference dictionaries of a document tree: text keys in ascending order of code
points, one value a key. Where a key is given twice the later value stays. A dictionary has no
memory of the order in which its keys came.

## Main definitions

* `Dict` : the entries, keys strictly ascending.
* `Dict.insert`, `Dict.get?`, `Dict.ofList` : its operations.
-/

namespace DocMarkup

/-- A map from text to `α` that lists its entries by ascending key. -/
structure Dict (α : Type) where
  /-- The entries in order. -/
  entries : List (String × α)
  /-- Each key is below the next. -/
  ascending : (entries.map Prod.fst).Pairwise (· < ·)

namespace Dict

variable {α : Type}

/-- The dictionary without entries. -/
def empty : Dict α := ⟨[], by simp⟩

instance : EmptyCollection (Dict α) := ⟨empty⟩

instance : Inhabited (Dict α) := ⟨empty⟩

@[ext] theorem ext {m n : Dict α} (h : m.entries = n.entries) : m = n := by
  cases m; cases n; cases h; rfl

instance [DecidableEq α] : DecidableEq (Dict α) := fun m n =>
  if h : m.entries = n.entries then isTrue (ext h) else isFalse fun e => h (e ▸ rfl)

/-- The keys in ascending order. -/
def keys (d : Dict α) : List String := d.entries.map Prod.fst

/-- The value of `k`. -/
def get? (d : Dict α) (k : String) : Option α := d.entries.lookup k

/-- Sets `k` to `v` in an ascending entry list. -/
def place (k : String) (v : α) : List (String × α) → List (String × α)
  | [] => [(k, v)]
  | e :: rest =>
    if k = e.1 then (k, v) :: rest
    else if k < e.1 then (k, v) :: e :: rest
    else e :: place k v rest

theorem mem_map_fst_place {k x : String} {v : α} {es : List (String × α)} :
    x ∈ (place k v es).map Prod.fst ↔ x = k ∨ x ∈ es.map Prod.fst := by
  induction es with
  | nil => simp [place]
  | cons e rest ih =>
    by_cases h : k = e.1
    · simp [place, h]
    · by_cases h' : k < e.1
      · simp [place, h, h']
      · rw [place, if_neg h, if_neg h', List.map_cons, List.mem_cons, ih, List.map_cons,
          List.mem_cons]
        grind

/-- Placing an entry keeps the keys ascending. -/
theorem pairwise_place {k : String} {v : α} {es : List (String × α)}
    (h : (es.map Prod.fst).Pairwise (· < ·)) : ((place k v es).map Prod.fst).Pairwise (· < ·) := by
  induction es with
  | nil => simp [place]
  | cons e rest ih =>
    rw [List.map_cons, List.pairwise_cons] at h
    obtain ⟨hlt, hrest⟩ := h
    by_cases hk : k = e.1
    · rw [place, if_pos hk, List.map_cons, List.pairwise_cons]
      exact ⟨fun x hx => hk ▸ hlt x hx, hrest⟩
    · by_cases hk' : k < e.1
      · rw [place, if_neg hk, if_pos hk', List.map_cons, List.pairwise_cons, List.map_cons,
          List.pairwise_cons]
        refine ⟨fun x hx => ?_, hlt, hrest⟩
        rcases List.mem_cons.1 hx with rfl | hx
        · exact hk'
        · exact String.lt_trans hk' (hlt x hx)
      · rw [place, if_neg hk, if_neg hk', List.map_cons, List.pairwise_cons]
        refine ⟨fun x hx => ?_, ih hrest⟩
        rcases mem_map_fst_place.1 hx with rfl | hx
        · have hle := String.not_lt.1 hk'
          by_cases hlt' : e.1 < x
          · exact hlt'
          · exact absurd (String.le_antisymm (String.not_lt.1 hlt') hle) hk
        · exact hlt x hx

/-- Sets `k` to `v`; an earlier value of `k` is dropped. -/
def insert (d : Dict α) (k : String) (v : α) : Dict α :=
  ⟨place k v d.entries, pairwise_place d.ascending⟩

/-- The dictionary that results from setting the pairs in order. -/
def ofList (pairs : List (String × α)) : Dict α :=
  pairs.foldl (fun d e => d.insert e.1 e.2) ∅

end Dict

/-- The attribute dictionary of a node. -/
abbrev Attributes := Dict String

end DocMarkup
