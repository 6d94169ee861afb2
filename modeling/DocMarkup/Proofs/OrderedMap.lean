import Mathlib.Algebra.GroupWithZero.Nat
import DocMarkup.OrderedMap
import DocMarkup.Proofs.FirstOccurrence
import Mathlib.Data.List.Basic
import Mathlib.Data.List.Nodup

/-!
# What an insertion-ordered map holds

The entries of a map after an insertion, and the value of a key before and after an operation. A
map that pairs are set in has its keys in the order of their first occurrence, each with the value
that it was set to last.

## Main definitions

* `OrderedMap.lastValues` : the keys of pairs in that order, each with its last value.

## Main results

* `OrderedMap.lookup_eq_some_iff_mem` : the value of a key is the one it is listed with.
* `OrderedMap.get?_insert_self`, `OrderedMap.get?_insert_of_ne` : the values after an insertion.
* `OrderedMap.mem_entries_ofList` : a map from a list holds pairs of the list only.
* `OrderedMap.entries_ofList` : a list without repeated keys is the list of entries of its map.
* `OrderedMap.entries_insert`, `OrderedMap.entries_erase` : the place where an operation changes the
  entries.
* `OrderedMap.get?_foldl_insert`, `OrderedMap.get?_overlay`, `OrderedMap.keys_overlay` : the values
  and the keys after a run of insertions.
* `OrderedMap.entries_ofList_eq` : the entries of a map from a list.
* `OrderedMap.lastValues_map` : keys renamed one to one.
* `OrderedMap.sum_map_ofList_le` : a map from a list holds no more than the list.
-/

namespace DocMarkup.OrderedMap

variable {κ α : Type} [DecidableEq κ]

/-- The value of a key is listed with it. -/
theorem mem_of_lookup_eq_some {es : List (κ × α)} {k : κ} {v : α}
    (h : es.lookup k = some v) : (k, v) ∈ es := by
  obtain ⟨before, after, rfl, -⟩ := List.lookup_eq_some_iff.1 h
  exact List.mem_append_right _ List.mem_cons_self

/-- In a list without repeated keys, the value of a key is the one it is listed with. -/
theorem lookup_eq_some_iff_mem {es : List (κ × α)} (h : (es.map Prod.fst).Nodup) {k : κ} {v : α} :
    es.lookup k = some v ↔ (k, v) ∈ es := by
  refine ⟨mem_of_lookup_eq_some, fun hm => List.lookup_eq_some_iff.2 ?_⟩
  obtain ⟨before, after, rfl⟩ := List.append_of_mem hm
  refine ⟨before, after, rfl, fun p hp => ?_⟩
  rw [List.map_append, List.nodup_append] at h
  exact bne_iff_ne.2 fun he =>
    h.2.2 p.1 (List.mem_map_of_mem hp) k (List.mem_map_of_mem List.mem_cons_self) he.symm

theorem lookup_eq_none_iff_notMem {es : List (κ × α)} {k : κ} :
    es.lookup k = none ↔ k ∉ es.map Prod.fst := by
  rw [List.lookup_eq_none_iff, List.mem_map]
  constructor
  · rintro h ⟨p, hp, rfl⟩
    simpa using h p hp
  · exact fun h p hp => bne_iff_ne.2 fun he => h ⟨p, hp, he.symm⟩

theorem lookup_cons_of_ne {e : κ × α} {k : κ} (h : k ≠ e.1) (es : List (κ × α)) :
    (e :: es).lookup k = es.lookup k := by
  rw [List.lookup_cons, beq_eq_false_iff_ne.2 h]

theorem lookup_put (k j : κ) (v : α) (es : List (κ × α)) :
    (put k v es).lookup j = if j = k then some v else es.lookup j := by
  induction es with
  | nil =>
    by_cases hj : j = k
    · rw [if_pos hj, hj, put, List.lookup_cons_self]
    · rw [if_neg hj, put, lookup_cons_of_ne hj]
  | cons e es ih =>
    by_cases he : e.1 = k
    · rw [put, if_pos he]
      by_cases hj : j = k
      · rw [if_pos hj, hj, List.lookup_cons_self]
      · rw [if_neg hj, lookup_cons_of_ne hj, lookup_cons_of_ne (fun h => hj (h.trans he))]
    · rw [put, if_neg he]
      by_cases hj : j = e.1
      · obtain ⟨d, w⟩ := e
        obtain rfl : j = d := hj
        rw [if_neg he, List.lookup_cons_self, List.lookup_cons_self]
      · rw [lookup_cons_of_ne hj, lookup_cons_of_ne hj, ih]

@[simp] theorem get?_insert_self (m : OrderedMap κ α) (k : κ) (v : α) :
    (m.insert k v).get? k = some v := by
  rw [get?, insert, lookup_put, if_pos rfl]

theorem get?_insert_of_ne {k j : κ} (h : j ≠ k) (m : OrderedMap κ α) (v : α) :
    (m.insert k v).get? j = m.get? j := by
  rw [get?, insert, lookup_put, if_neg h, get?]

/-- Inserting a value only where none is keeps all values that there are. -/
theorem get?_insert_of_new (m : OrderedMap κ α) (k j : κ) (v : α) :
    (if m.contains k then m else m.insert k v).get? j =
      (m.get? j).or (if j = k then some v else none) := by
  split
  · rename_i hk
    by_cases hj : j = k
    · obtain ⟨w, hw⟩ := Option.isSome_iff_exists.1 hk
      rw [hj, hw, Option.some_or]
    · rw [if_neg hj, Option.or_none]
  · rename_i hk
    by_cases hj : j = k
    · rw [hj, get?_insert_self, if_pos rfl, Option.not_isSome_iff_eq_none.1 hk, Option.none_or]
    · rw [get?_insert_of_ne hj, if_neg hj, Option.or_none]

theorem lookup_filter_of_ne {k j : κ} (h : j ≠ k) (es : List (κ × α)) :
    (es.filter (·.1 ≠ k)).lookup j = es.lookup j := by
  induction es with
  | nil => rfl
  | cons e es ih =>
    by_cases he : e.1 = k
    · rw [List.filter_cons_of_neg (by simpa using he), ih,
        lookup_cons_of_ne (fun hj => h (hj.trans he))]
    · rw [List.filter_cons_of_pos (by simpa using he), List.lookup_cons, List.lookup_cons, ih]

theorem get?_erase_of_ne {k j : κ} (h : j ≠ k) (m : OrderedMap κ α) :
    (m.erase k).get? j = m.get? j := lookup_filter_of_ne h m.entries

theorem contains_iff {m : OrderedMap κ α} {k : κ} : m.contains k = true ↔ k ∈ m.keys := by
  rw [contains, Option.isSome_iff_ne_none, ne_eq, get?, lookup_eq_none_iff_notMem,
    Classical.not_not, keys]

@[simp] theorem get?_erase_self (m : OrderedMap κ α) (k : κ) : (m.erase k).get? k = none := by
  refine lookup_eq_none_iff_notMem.2 fun h => ?_
  rw [← keys, keys_erase] at h
  simp at h

theorem mem_put {k : κ} {v : α} {e : κ × α} {es : List (κ × α)} (h : e ∈ put k v es) :
    e = (k, v) ∨ e ∈ es := by
  induction es with
  | nil => exact Or.inl (List.mem_singleton.1 h)
  | cons d es ih =>
    unfold put at h
    split at h
    · exact (List.mem_cons.1 h).imp_right (List.mem_cons_of_mem d)
    · rcases List.mem_cons.1 h with rfl | h
      · exact Or.inr List.mem_cons_self
      · exact (ih h).imp_right (List.mem_cons_of_mem d)

theorem mem_entries_insert {m : OrderedMap κ α} {k : κ} {v : α} {e : κ × α}
    (h : e ∈ (m.insert k v).entries) : e = (k, v) ∨ e ∈ m.entries := mem_put h

theorem mem_entries_foldl_insert {pairs : List (κ × α)} {m : OrderedMap κ α} {e : κ × α}
    (h : e ∈ (pairs.foldl (fun acc p => acc.insert p.1 p.2) m).entries) :
    e ∈ m.entries ∨ e ∈ pairs := by
  induction pairs generalizing m with
  | nil => exact Or.inl h
  | cons p pairs ih =>
    rcases ih h with h | h
    · rcases mem_entries_insert h with rfl | h
      · exact Or.inr List.mem_cons_self
      · exact Or.inl h
    · exact Or.inr (List.mem_cons_of_mem p h)

/-- A map from a list holds pairs of the list only. -/
theorem mem_entries_ofList {pairs : List (κ × α)} {e : κ × α} (h : e ∈ (ofList pairs).entries) :
    e ∈ pairs := (mem_entries_foldl_insert h).resolve_left List.not_mem_nil

theorem put_of_notMem {k : κ} {es : List (κ × α)} (h : k ∉ es.map Prod.fst) (v : α) :
    put k v es = es ++ [(k, v)] := by
  induction es with
  | nil => rfl
  | cons e es ih =>
    rw [List.map_cons, List.mem_cons, not_or] at h
    rw [put, if_neg (Ne.symm h.1), ih h.2, List.cons_append]

theorem put_of_mem {k : κ} {es : List (κ × α)} (h : k ∈ es.map Prod.fst) (v : α) :
    put k v es = es.set ((es.map Prod.fst).idxOf k) (k, v) := by
  induction es with
  | nil => exact absurd h List.not_mem_nil
  | cons e es ih =>
    rw [put, List.map_cons]
    split
    · rename_i he
      rw [he, List.idxOf_cons_self, List.set_cons_zero]
    · rename_i he
      have hes : k ∈ es.map Prod.fst := (List.mem_cons.1 h).resolve_left (Ne.symm he)
      rw [ih hes, List.idxOf_cons_ne _ he, List.set_cons_succ]

/-- A present key has its value replaced in its place, and a new one comes last. -/
theorem entries_insert (m : OrderedMap κ α) (k : κ) (v : α) :
    (m.insert k v).entries =
      if k ∈ m.keys then m.entries.set (m.keys.idxOf k) (k, v) else m.entries ++ [(k, v)] := by
  split
  · rename_i h
    exact put_of_mem h v
  · rename_i h
    exact put_of_notMem h v

theorem filter_eq_eraseIdx {es : List (κ × α)} (h : (es.map Prod.fst).Nodup) (k : κ) :
    es.filter (·.1 ≠ k) = es.eraseIdx ((es.map Prod.fst).idxOf k) := by
  induction es with
  | nil => rfl
  | cons e es ih =>
    rw [List.map_cons] at h ⊢
    obtain ⟨he, hes⟩ := List.nodup_cons.1 h
    by_cases hk : e.1 = k
    · have hrest : es.filter (·.1 ≠ k) = es :=
        List.filter_eq_self.2 fun d hd =>
          decide_eq_true fun hdk => he (List.mem_map.2 ⟨d, hd, hdk.trans hk.symm⟩)
      rw [List.filter_cons_of_neg (by simpa using hk), hrest, hk, List.idxOf_cons_self,
        List.eraseIdx_cons_zero]
    · rw [List.filter_cons_of_pos (by simpa using hk), ih hes, List.idxOf_cons_ne _ hk,
        List.eraseIdx_cons_succ]

/-- No more than one entry goes, the one in the place of the key. -/
theorem entries_erase (m : OrderedMap κ α) (k : κ) :
    (m.erase k).entries = m.entries.eraseIdx (m.keys.idxOf k) :=
  filter_eq_eraseIdx m.nodup_keys k

/-- A key that is dropped and set again comes last. -/
theorem entries_insert_erase (m : OrderedMap κ α) (k : κ) (v : α) :
    ((m.erase k).insert k v).entries = m.entries.eraseIdx (m.keys.idxOf k) ++ [(k, v)] := by
  have hk : k ∉ (m.erase k).keys := by simp [keys_erase]
  rw [entries_insert, if_neg hk, entries_erase]

theorem entries_foldl_insert {pairs : List (κ × α)} {m : OrderedMap κ α}
    (h : ((m.entries ++ pairs).map Prod.fst).Nodup) :
    (pairs.foldl (fun acc p => acc.insert p.1 p.2) m).entries = m.entries ++ pairs := by
  induction pairs generalizing m with
  | nil => rw [List.foldl_nil, List.append_nil]
  | cons p pairs ih =>
    have hp : (m.insert p.1 p.2).entries = m.entries ++ [p] := by
      refine put_of_notMem (fun hm => ?_) p.2
      rw [List.map_append, List.nodup_append] at h
      exact h.2.2 p.1 hm p.1 List.mem_cons_self rfl
    rw [List.foldl_cons, ih (by rwa [hp, List.append_assoc]), hp, List.append_assoc]
    rfl

/-- A list without repeated keys is the list of entries of its map. -/
theorem entries_ofList {pairs : List (κ × α)} (h : (pairs.map Prod.fst).Nodup) :
    (ofList pairs).entries = pairs := entries_foldl_insert (m := ∅) h

theorem sum_map_put_le (f : κ × α → Nat) (k : κ) (v : α) (es : List (κ × α)) :
    ((put k v es).map f).sum ≤ (es.map f).sum + f (k, v) := by
  induction es with
  | nil => simp [put]
  | cons e es ih =>
    rw [put]
    split
    · simp only [List.map_cons, List.sum_cons]
      omega
    · simp only [List.map_cons, List.sum_cons]
      omega

theorem sum_map_foldl_insert_le (f : κ × α → Nat) (pairs : List (κ × α)) (m : OrderedMap κ α) :
    ((pairs.foldl (fun acc p => acc.insert p.1 p.2) m).entries.map f).sum ≤
      (m.entries.map f).sum + (pairs.map f).sum := by
  induction pairs generalizing m with
  | nil => exact Nat.le_refl _
  | cons p pairs ih =>
    have hput : ((m.insert p.1 p.2).entries.map f).sum ≤ (m.entries.map f).sum + f p :=
      sum_map_put_le f p.1 p.2 m.entries
    have hrest := ih (m.insert p.1 p.2)
    rw [List.foldl_cons, List.map_cons, List.sum_cons]
    omega

/-- A map from a list holds no more than the list, whatever it is measured by. -/
theorem sum_map_ofList_le (f : κ × α → Nat) (pairs : List (κ × α)) :
    ((ofList pairs).entries.map f).sum ≤ (pairs.map f).sum := by
  have h := sum_map_foldl_insert_le f pairs ∅
  rwa [show (∅ : OrderedMap κ α).entries = [] from rfl, List.map_nil, List.sum_nil,
    Nat.zero_add] at h

/-! ### Pairs set one after the other -/

theorem lookup_append (es es' : List (κ × α)) (k : κ) :
    (es ++ es').lookup k = (es.lookup k).or (es'.lookup k) := by
  induction es with
  | nil => rfl
  | cons e es ih =>
    by_cases h : k = e.1
    · obtain ⟨d, w⟩ := e
      obtain rfl : k = d := h
      rw [List.cons_append, List.lookup_cons_self, List.lookup_cons_self, Option.some_or]
    · rw [List.cons_append, lookup_cons_of_ne h, lookup_cons_of_ne h, ih]

/-- Where no key is repeated, the last value of a key is its only one. -/
theorem lookup_reverse {es : List (κ × α)} (h : (es.map Prod.fst).Nodup) (k : κ) :
    es.reverse.lookup k = es.lookup k := by
  have hrev : (es.reverse.map Prod.fst).Nodup := by
    rw [List.map_reverse]
    exact List.nodup_reverse.2 h
  ext v
  rw [lookup_eq_some_iff_mem hrev, lookup_eq_some_iff_mem h, List.mem_reverse]

/-- After a run of insertions, a key has the value that it was set to last. -/
theorem get?_foldl_insert (pairs : List (κ × α)) (m : OrderedMap κ α) (k : κ) :
    (pairs.foldl (fun acc p => acc.insert p.1 p.2) m).get? k =
      (pairs.reverse.lookup k).or (m.get? k) := by
  induction pairs generalizing m with
  | nil => rfl
  | cons p pairs ih =>
    rw [List.foldl_cons, ih, List.reverse_cons, lookup_append, Option.or_assoc]
    congr 1
    by_cases h : k = p.1
    · obtain ⟨d, w⟩ := p
      obtain rfl : k = d := h
      rw [get?_insert_self, List.lookup_cons_self, Option.some_or]
    · rw [get?_insert_of_ne h, lookup_cons_of_ne h, List.lookup_nil, Option.none_or]

/-- Where a map is laid over another, its values are the ones that count. -/
theorem get?_overlay (m n : OrderedMap κ α) (k : κ) :
    (m.overlay n).get? k = (n.get? k).or (m.get? k) := by
  rw [overlay, get?_foldl_insert, lookup_reverse n.nodup_keys]
  rfl

/-- A map keeps the keys that it has in front of new ones. -/
theorem keys_foldl_insert (pairs : List (κ × α)) (m : OrderedMap κ α) :
    (pairs.foldl (fun acc p => acc.insert p.1 p.2) m).keys =
      (m.keys ++ pairs.map Prod.fst).eraseDups := by
  have hm (m : OrderedMap κ α) : m.keys.eraseDups = m.keys := eraseDups_of_nodup m.nodup_keys
  induction pairs generalizing m with
  | nil => rw [List.map_nil, List.append_nil, hm, List.foldl_nil]
  | cons p pairs ih =>
    rw [List.foldl_cons, ih, List.map_cons, ← List.singleton_append, ← List.append_assoc,
      ← eraseDups_append_eraseDups (m.keys ++ [p.1]), eraseDups_concat, hm, keys_insert]

/-- Where a map is laid over another, the keys that only it has come after the others. -/
theorem keys_overlay (m n : OrderedMap κ α) :
    (m.overlay n).keys = m.keys ++ n.keys.filter (· ∉ m.keys) := by
  have hm : m.keys.Nodup := m.nodup_keys
  have hn : n.keys.Nodup := n.nodup_keys
  have hnew : n.keys.removeAll m.keys = n.keys.filter (· ∉ m.keys) := by
    simp [List.removeAll]
  rw [overlay, keys_foldl_insert, eraseDups_append_of_nodup hm, ← keys, hnew,
    eraseDups_of_nodup (hn.filter _)]

/-- The keys of pairs in the order of their first occurrence, each with the value that it is paired
with last. -/
def lastValues (pairs : List (κ × α)) : List (κ × α) :=
  (pairs.map Prod.fst).eraseDups.filterMap fun k => (pairs.reverse.lookup k).map (k, ·)

theorem get?_of_mem_entries {m : OrderedMap κ α} {e : κ × α} (h : e ∈ m.entries) :
    m.get? e.1 = some e.2 := (lookup_eq_some_iff_mem m.nodup_keys).2 h

/-- The entries of a map are its keys with their values. -/
theorem entries_eq (m : OrderedMap κ α) :
    m.entries = m.keys.filterMap fun k => (m.get? k).map (k, ·) := by
  rw [keys, List.filterMap_map]
  refine (List.filterMap_some.symm.trans (List.filterMap_congr fun e he => ?_))
  rw [Function.comp_apply, get?_of_mem_entries he, Option.map_some]

/-- **The entries of a map from a list** are the keys of the list in the order of their first
occurrence, each with its last value. -/
theorem entries_ofList_eq (pairs : List (κ × α)) : (ofList pairs).entries = lastValues pairs := by
  have hkeys : (ofList pairs).keys = (pairs.map Prod.fst).eraseDups := keys_foldl_insert pairs ∅
  rw [entries_eq, hkeys, lastValues]
  refine List.filterMap_congr fun k _ => ?_
  rw [ofList, get?_foldl_insert]
  cases pairs.reverse.lookup k <;> rfl

theorem mem_of_mem_lastValues {pairs : List (κ × α)} {e : κ × α} (h : e ∈ lastValues pairs) :
    e ∈ pairs := mem_entries_ofList (entries_ofList_eq pairs ▸ h)

theorem lastValues_eq_nil_iff {pairs : List (κ × α)} : lastValues pairs = [] ↔ pairs = [] := by
  refine ⟨fun h => List.eq_nil_iff_forall_not_mem.2 fun p hp => ?_, fun h => by rw [h]; rfl⟩
  have hkeys : (ofList pairs).keys = (pairs.map Prod.fst).eraseDups := keys_foldl_insert pairs ∅
  have hmem : p.1 ∈ (pairs.map Prod.fst).eraseDups := List.mem_eraseDups.2 (List.mem_map_of_mem hp)
  rw [← hkeys, keys, entries_ofList_eq, h] at hmem
  exact List.not_mem_nil hmem

section Map

variable {κ' α' : Type} [DecidableEq κ'] {f : κ → κ'}

theorem lookup_map {es : List (κ × α)} {k : κ} (hf : ∀ e ∈ es, f k = f e.1 → k = e.1) (g : α → α') :
    (es.map (Prod.map f g)).lookup (f k) = (es.lookup k).map g := by
  induction es with
  | nil => rfl
  | cons e es ih =>
    rw [List.forall_mem_cons] at hf
    by_cases h : k = e.1
    · obtain ⟨d, w⟩ := e
      obtain rfl : k = d := h
      rw [List.map_cons, Prod.map_apply, List.lookup_cons_self, List.lookup_cons_self,
        Option.map_some]
    · rw [List.map_cons, lookup_cons_of_ne h, lookup_cons_of_ne (e := Prod.map f g e)
        (mt hf.1 h), ih hf.2]

/-- Keys that stay different when they are renamed keep their order and their last values. -/
theorem lastValues_map {pairs : List (κ × α)}
    (hf : ∀ a ∈ pairs, ∀ b ∈ pairs, f a.1 = f b.1 → a.1 = b.1) (g : α → α') :
    lastValues (pairs.map (Prod.map f g)) = (lastValues pairs).map (Prod.map f g) := by
  have hkeys : ((pairs.map (Prod.map f g)).map Prod.fst).eraseDups =
      (pairs.map Prod.fst).eraseDups.map f := by
    rw [← eraseDups_map, List.map_map, List.map_map]
    · rfl
    · simpa using fun a v hv b w hw => hf (a, v) hv (b, w) hw
  rw [lastValues, lastValues, hkeys, List.filterMap_map, List.map_filterMap]
  refine List.filterMap_congr fun k hk => ?_
  obtain ⟨e, he, rfl⟩ := List.mem_map.1 (List.mem_eraseDups.1 hk)
  rw [Function.comp_apply, ← List.map_reverse, lookup_map fun d hd => hf e he d (by simpa using hd)]
  cases pairs.reverse.lookup e.1 <;> rfl

end Map

end DocMarkup.OrderedMap
