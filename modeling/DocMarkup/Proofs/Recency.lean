import DocMarkup.Cache
import DocMarkup.Proofs.FirstOccurrence
import DocMarkup.Proofs.OrderedMap

/-!
# What a cache keeps

The keys of a cache are the first of all keys in the order of their latest uses, as many as there
is room for. Using a key moves it to the front of this order, and the cache keeps up with that
whether it finds the key, has room for it or drops its last entry.

## Main definitions

* `Cache.touch` : an order of latest uses after one more use.
* `Cache.latestUses` : the order of latest uses that a history tells.
* `Cache.Keeps` : the keys of a cache are the first of an order.

## Main results

* `Cache.Keeps.get`, `Cache.Keeps.put` : the keys after a key was found, or set.
-/

namespace DocMarkup.Cache

variable {κ α : Type}

/-- The cache has the first keys of an order of latest uses, as many as it has room for. -/
def Keeps (c : Cache κ α) (used : List κ) : Prop := c.keys = used.take c.capacity

theorem keeps_empty (capacity : Nat) : (empty capacity : Cache κ α).Keeps [] :=
  List.take_nil.symm

theorem length_entries (c : Cache κ α) : c.entries.length = c.keys.length :=
  (List.length_map _).symm

variable [DecidableEq κ]

/-- The order of latest uses after one more use. -/
def touch (k : κ) (used : List κ) : List κ := k :: used.filter (· ≠ k)

/-- The keys used in a history since all were dropped, the latest first, each once. -/
def latestUses {ε : Type} (drops : ε → Bool) (used? : ε → Option κ) (history : List ε) : List κ :=
  ((history.reverse.takeWhile (!drops ·)).filterMap used?).eraseDups

/-- The order of latest uses after one more event. -/
theorem latestUses_concat {ε : Type} (drops : ε → Bool) (used? : ε → Option κ) (history : List ε)
    (event : ε) :
    latestUses drops used? (history ++ [event]) =
      if drops event then []
      else match used? event with
        | some k => touch k (latestUses drops used? history)
        | none => latestUses drops used? history := by
  rw [latestUses, List.reverse_concat]
  cases hdrops : drops event with
  | true => rw [List.takeWhile_cons_of_neg (by simp [hdrops]), if_pos rfl]; rfl
  | false =>
    rw [List.takeWhile_cons_of_pos (by simp [hdrops]), if_neg Bool.false_ne_true,
      List.filterMap_cons]
    cases used? event with
    | none => rfl
    | some k => exact eraseDups_cons_eq _ _

theorem nodup_latestUses {ε : Type} (drops : ε → Bool) (used? : ε → Option κ) (history : List ε) :
    (latestUses drops used? history).Nodup :=
  nodup_eraseDups _

theorem filter_ne_of_notMem {k : κ} {used : List κ} (h : k ∉ used) :
    used.filter (· ≠ k) = used :=
  List.filter_eq_self.2 fun _ ha => decide_eq_true fun he => h (he ▸ ha)

/-- The first keys after a use. A key that is not among the first pushes the last of them out. -/
theorem take_touch {used : List κ} (h : used.Nodup) (k : κ) (n : Nat) :
    (touch k used).take (n + 1) =
      if k ∈ used.take (n + 1) then touch k (used.take (n + 1)) else k :: used.take n := by
  suffices hrest : (used.filter (· ≠ k)).take n =
      if k ∈ used.take (n + 1) then (used.take (n + 1)).filter (· ≠ k) else used.take n by
    rw [touch, List.take_succ_cons, hrest]
    split <;> rfl
  induction used generalizing n with
  | nil => simp
  | cons a used ih =>
    obtain ⟨ha, hused⟩ := List.nodup_cons.1 h
    rw [List.take_succ_cons]
    by_cases hak : a = k
    · subst hak
      have hnone : a ∉ used.take n := fun hm => ha (List.mem_of_mem_take hm)
      rw [if_pos List.mem_cons_self, List.filter_cons_of_neg (by simp),
        List.filter_cons_of_neg (by simp), filter_ne_of_notMem ha, filter_ne_of_notMem hnone]
    · have hka : ¬ k = a := fun he => hak he.symm
      rw [List.filter_cons_of_pos (by simpa using hak), List.filter_cons_of_pos (by simpa using hak)]
      cases n with
      | zero => simp [hka]
      | succ n =>
        simp only [List.mem_cons, hka, false_or, List.take_succ_cons, ih hused n]
        split <;> rfl

variable {c : Cache κ α} {k : κ} {used : List κ}

theorem keys_others (c : Cache κ α) (k : κ) : (c.others k).map Prod.fst = c.keys.filter (· ≠ k) := by
  rw [others, keys, List.filter_map]
  rfl

theorem contains_iff : c.contains k = true ↔ k ∈ c.keys := by
  rw [contains, Option.isSome_iff_ne_none, ne_eq, peek, OrderedMap.lookup_eq_none_iff_notMem,
    Classical.not_not]
  rfl

theorem keys_get {v : α} (h : c.peek k = some v) : (c.get k).2.keys = touch k c.keys := by
  rw [Cache.get, h, touch, ← keys_others]
  rfl

theorem capacity_get (c : Cache κ α) (k : κ) : (c.get k).2.capacity = c.capacity := by
  unfold Cache.get
  split <;> rfl

theorem keys_put_of_mem (hpos : c.capacity ≠ 0) (h : k ∈ c.keys) (v : α) :
    (c.put k v).2.keys = touch k c.keys := by
  rw [Cache.put, if_neg hpos, if_pos (contains_iff.2 h), touch, ← keys_others]
  rfl

/-- A new key comes in front, and the last one gives way if there is no room. -/
theorem keys_put_of_notMem {n : Nat} (hn : c.capacity = n + 1) (hlen : c.keys.length ≤ n + 1)
    (h : k ∉ c.keys) (v : α) : (c.put k v).2.keys = k :: c.keys.take n := by
  rw [Cache.put, if_neg (by omega), if_neg fun hk => h (contains_iff.1 hk), length_entries, hn]
  split
  · rw [List.take_of_length_le (by omega)]
    rfl
  · have hlast : c.keys.take n = c.keys.dropLast := by
      rw [List.dropLast_eq_take, show c.keys.length - 1 = n by omega]
    rw [hlast]
    exact congrArg (k :: ·) List.map_dropLast

theorem capacity_put (c : Cache κ α) (k : κ) (v : α) : (c.put k v).2.capacity = c.capacity := by
  unfold Cache.put
  split
  · rfl
  split
  · rfl
  split <;> rfl

/-- A key that is found comes with a value from before. -/
theorem mem_entries_get {e : κ × α} {v : α} (hv : c.peek k = some v)
    (he : e ∈ (c.get k).2.entries) : e = (k, v) ∨ e ∈ c.entries := by
  rw [Cache.get, hv] at he
  exact (List.mem_cons.1 he).imp_right fun h => (List.mem_filter.1 h).1

theorem mem_entries_put {e : κ × α} {v : α} (he : e ∈ (c.put k v).2.entries) :
    e = (k, v) ∨ e ∈ c.entries := by
  unfold Cache.put at he
  split at he
  · exact Or.inr he
  split at he
  · exact (List.mem_cons.1 he).imp_right fun h => (List.mem_filter.1 h).1
  split at he
  · exact List.mem_cons.1 he
  · exact (List.mem_cons.1 he).imp_right fun h => List.dropLast_subset _ h

theorem nodup_touch (h : used.Nodup) (k : κ) : (touch k used).Nodup :=
  List.nodup_cons.2 ⟨by simp, h.filter _⟩

/-- A key that is found moves to the front. -/
theorem Keeps.get (h : c.Keeps used) (hused : used.Nodup) {v : α} (hv : c.peek k = some v) :
    (c.get k).2.Keeps (touch k used) := by
  have hk : k ∈ c.keys := contains_iff.1 (by rw [contains, hv]; rfl)
  rw [Keeps, keys_get hv, capacity_get]
  rw [Keeps] at h
  cases hn : c.capacity with
  | zero =>
    rw [h, hn] at hk
    cases hk
  | succ n =>
    rw [hn] at h
    rw [take_touch hused, ← h, if_pos hk]

/-- A key that is set moves to the front, or comes there if it is new. -/
theorem Keeps.put (h : c.Keeps used) (hused : used.Nodup) (k : κ) (v : α) :
    (c.put k v).2.Keeps (touch k used) := by
  rw [Keeps, capacity_put]
  rw [Keeps] at h
  cases hn : c.capacity with
  | zero => rw [Cache.put, if_pos hn, h, hn, List.take_zero, List.take_zero]
  | succ n =>
    rw [hn] at h
    rw [take_touch hused, ← h]
    split
    · rename_i hk
      exact keys_put_of_mem (by omega) hk v
    · rename_i hk
      have hlen : c.keys.length ≤ n + 1 := h ▸ List.length_take_le _ _
      rw [keys_put_of_notMem hn hlen hk, h, List.take_take, Nat.min_eq_left (Nat.le_succ n)]

end DocMarkup.Cache
