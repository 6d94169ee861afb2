import DocMarkup.Proofs.Recency

/-!
# The history of a cache

What a cache holds and what it gives back can be told from the history of the calls on it, without
a look at its entries. The keys that are set or found are used; it holds those used latest since
everything was dropped, as many as there is room for, each with the value it was set to last. A
call that looks without using, or looks for a key in vain, leaves no trace.

## Main definitions

* `Cache.Operation`, `Cache.Event`, `Cache.run` : calls, calls with what they gave back, and runs.
* `Cache.held` : the keys that a history leaves in a cache.
* `Cache.lastSet?` : the value that a key was set to last in a history.
* `Cache.Event.IsTold` : what a call gives back, told by the history before it.

## Main results

* `Cache.Follows.perform` : one call.
* `Cache.run_told` : runs of calls.
-/

namespace DocMarkup.Cache

variable {κ α : Type}

/-- A call on a cache. -/
inductive Operation (κ α : Type) where
  | put (k : κ) (v : α)
  | get (k : κ)
  | peek (k : κ)
  | contains (k : κ)
  | clear

/-- A call on a cache with what it gave back. -/
inductive Event (κ α : Type) where
  /-- A key was set, and an entry was given back for it. -/
  | put (k : κ) (v : α) (returned : Option (κ × α))
  | get (k : κ) (found : Option α)
  | peek (k : κ) (found : Option α)
  | contains (k : κ) (present : Bool)
  | clear
  deriving DecidableEq

namespace Event

/-- Whether the call drops every entry. -/
def drops : Event κ α → Bool
  | clear => true
  | put .. | get .. | peek .. | contains .. => false

/-- The key that the call uses: one that is set, or one that is found. -/
def used? : Event κ α → Option κ
  | put k _ _ => some k
  | get k (some _) => some k
  | get _ none | peek .. | contains .. | clear => none

variable [DecidableEq κ]

/-- The value that the call sets the key to. -/
def set? (k : κ) : Event κ α → Option α
  | put j v _ => if j = k then some v else none
  | get .. | peek .. | contains .. | clear => none

end Event

variable [DecidableEq κ]

/-- The keys that a history leaves in a cache: those used latest since everything was dropped, as
many as there is room for, the latest first. -/
def held (capacity : Nat) (history : List (Event κ α)) : List κ :=
  (latestUses Event.drops Event.used? history).take capacity

/-- The value that a key was set to last in a history. -/
def lastSet? (history : List (Event κ α)) (k : κ) : Option α :=
  history.reverse.findSome? (Event.set? k)

/-- What looking for a key finds after a history: the value it was set to last if it is held. -/
def Sees (capacity : Nat) (history : List (Event κ α)) (k : κ) (found : Option α) : Prop :=
  (k ∈ held capacity history → ∃ v, found = some v ∧ lastSet? history k = some v) ∧
    (k ∉ held capacity history → found = none)

/-- What a call gives back is as the history before it tells. -/
def Event.IsTold (capacity : Nat) (history : List (Event κ α)) : Event κ α → Prop
  | put k v returned =>
    if capacity = 0 then returned = some (k, v)
    else if k ∈ held capacity history ∨ (held capacity history).length < capacity then
      returned = none
    else ∃ old w, (held capacity history).getLast? = some old ∧ lastSet? history old = some w ∧
      returned = some (old, w)
  | get k found => Sees capacity history k found
  | peek k found => Sees capacity history k found
  | contains k present => present = true ↔ k ∈ held capacity history
  | clear => True

/-- What happens in a call, and the cache after it. -/
def perform (c : Cache κ α) : Operation κ α → Event κ α × Cache κ α
  | .put k v => (.put k v (c.put k v).1, (c.put k v).2)
  | .get k => (.get k (c.get k).1, (c.get k).2)
  | .peek k => (.peek k (c.peek k), c)
  | .contains k => (.contains k (c.contains k), c)
  | .clear => (.clear, c.clear)

/-- What happens in calls one after the other, and the cache after them. -/
def run (c : Cache κ α) : List (Operation κ α) → List (Event κ α) × Cache κ α
  | [] => ([], c)
  | operation :: rest =>
    let (event, c) := c.perform operation
    let (events, c) := run c rest
    (event :: events, c)

/-! ### Values -/

theorem lastSet?_concat (history : List (Event κ α)) (event : Event κ α) (k : κ) :
    lastSet? (history ++ [event]) k = (event.set? k).or (lastSet? history k) := by
  rw [lastSet?, List.reverse_concat, List.findSome?_cons]
  cases event.set? k <;> rfl

/-- A call that sets no key changes no value. -/
theorem lastSet?_concat_of_none {event : Event κ α} (h : ∀ k, event.set? k = none)
    (history : List (Event κ α)) : lastSet? (history ++ [event]) = lastSet? history := by
  funext k
  rw [lastSet?_concat, h, Option.none_or]

/-! ### What setting a key gives back -/

section Put

variable {c : Cache κ α} {k : κ}

theorem put_of_capacity_eq_zero (h : c.capacity = 0) (k : κ) (v : α) :
    c.put k v = (some (k, v), c) := by
  rw [Cache.put, if_pos h]

theorem put_fst_of_room (hpos : c.capacity ≠ 0) (h : k ∈ c.keys ∨ c.keys.length < c.capacity)
    (v : α) : (c.put k v).1 = none := by
  rw [Cache.put, if_neg hpos, length_entries]
  split
  · rfl
  · rename_i hk
    rw [if_pos (h.resolve_left fun hm => hk (contains_iff.2 hm))]

/-- A cache without room gives back its last entry for a new key. -/
theorem put_fst_of_full (hpos : c.capacity ≠ 0) (hk : k ∉ c.keys)
    (hfull : ¬ c.keys.length < c.capacity) (v : α) :
    ∃ e ∈ c.entries, c.keys.getLast? = some e.1 ∧ (c.put k v).1 = some e := by
  rw [← length_entries] at hfull
  have hlast : (c.put k v).1 = c.entries.getLast? := by
    rw [Cache.put, if_neg hpos, if_neg fun h => hk (contains_iff.1 h), if_neg hfull]
  cases he : c.entries.getLast? with
  | none =>
    rw [List.getLast?_eq_none_iff.1 he] at hfull
    exact absurd (Nat.pos_of_ne_zero hpos) hfull
  | some e =>
    refine ⟨e, List.mem_of_getLast? he, ?_, hlast.trans he⟩
    rw [keys, List.getLast?_map, he]
    rfl

/-- After a key was set, it has its value, and the other entries are as they were. -/
theorem eq_or_mem_entries_put (hpos : c.capacity ≠ 0) {e : κ × α} {v : α}
    (he : e ∈ (c.put k v).2.entries) : e = (k, v) ∨ e ∈ c.entries ∧ e.1 ≠ k := by
  by_cases hk : c.contains k = true
  · rw [Cache.put, if_neg hpos, if_pos hk] at he
    refine (List.mem_cons.1 he).imp_right fun h => ?_
    exact ⟨(List.mem_filter.1 h).1, by simpa using (List.mem_filter.1 h).2⟩
  · refine (mem_entries_put he).imp_right fun h => ⟨h, fun hek => hk (contains_iff.2 ?_)⟩
    exact hek ▸ List.mem_map_of_mem h

end Put

/-! ### One call and runs of calls -/

/-- A cache is as its history tells. -/
structure Follows (capacity : Nat) (history : List (Event κ α)) (c : Cache κ α) : Prop where
  capacity_eq : c.capacity = capacity
  keeps : c.Keeps (latestUses Event.drops Event.used? history)
  /-- Every key that is held has the value it was set to last. -/
  values : ∀ e ∈ c.entries, lastSet? history e.1 = some e.2

theorem follows_empty (capacity : Nat) : Follows capacity [] (empty capacity : Cache κ α) where
  capacity_eq := rfl
  keeps := keeps_empty capacity
  values := fun _ he => absurd he List.not_mem_nil

namespace Follows

variable {capacity : Nat} {history : List (Event κ α)} {c : Cache κ α}

theorem keys_eq (h : Follows capacity history c) : c.keys = held capacity history := by
  rw [h.keeps, h.capacity_eq, held]

theorem entries_eq_nil (h : Follows capacity history c) (hzero : capacity = 0) :
    c.entries = [] := by
  have hkeys := h.keys_eq
  rw [held, hzero, List.take_zero] at hkeys
  exact List.map_eq_nil_iff.1 hkeys

theorem sees_peek (h : Follows capacity history c) (k : κ) :
    Sees capacity history k (c.peek k) := by
  rw [Sees, ← h.keys_eq, ← contains_iff, contains]
  cases hp : c.peek k with
  | none => exact ⟨fun hk => absurd hk (by simp), fun _ => rfl⟩
  | some v =>
    have hv := h.values _ (OrderedMap.mem_of_lookup_eq_some hp)
    exact ⟨fun _ => ⟨v, rfl, hv⟩, fun hk => absurd rfl hk⟩

theorem get_fst (c : Cache κ α) (k : κ) : (c.get k).1 = c.peek k := by
  unfold Cache.get
  split <;> (rename_i hp; rw [hp])

theorem isTold_put (h : Follows capacity history c) (k : κ) (v : α) :
    (Event.put k v (c.put k v).1).IsTold capacity history := by
  rw [Event.IsTold, ← h.keys_eq, ← h.capacity_eq]
  split
  · rename_i hzero
    rw [put_of_capacity_eq_zero hzero]
  split
  · rename_i hpos hroom
    exact put_fst_of_room hpos hroom v
  · rename_i hpos hfull
    obtain ⟨hk, hlen⟩ := not_or.1 hfull
    obtain ⟨e, he, hlast, hput⟩ := put_fst_of_full hpos hk hlen v
    exact ⟨e.1, e.2, hlast, h.values e he, hput⟩

/-- A call that neither uses nor sets nor drops anything leaves no trace. -/
theorem concat_of_idle (h : Follows capacity history c) {event : Event κ α}
    (hdrops : event.drops = false) (hused : event.used? = none) (hset : ∀ k, event.set? k = none) :
    Follows capacity (history ++ [event]) c where
  capacity_eq := h.capacity_eq
  keeps := by
    rw [latestUses_concat, hdrops, hused]
    exact h.keeps
  values := by
    rw [lastSet?_concat_of_none hset]
    exact h.values

theorem put (h : Follows capacity history c) (k : κ) (v : α) (returned : Option (κ × α)) :
    Follows capacity (history ++ [.put k v returned]) (c.put k v).2 where
  capacity_eq := (capacity_put c k v).trans h.capacity_eq
  keeps := by
    rw [latestUses_concat]
    exact h.keeps.put (nodup_latestUses ..) k v
  values := fun e he => by
    rw [lastSet?_concat, Event.set?]
    by_cases hzero : c.capacity = 0
    · rw [put_of_capacity_eq_zero hzero, h.entries_eq_nil (h.capacity_eq ▸ hzero)] at he
      exact absurd he List.not_mem_nil
    rcases eq_or_mem_entries_put hzero he with rfl | ⟨he, hne⟩
    · rw [if_pos rfl, Option.some_or]
    · rw [if_neg (Ne.symm hne), Option.none_or]
      exact h.values e he

theorem get (h : Follows capacity history c) (k : κ) :
    Follows capacity (history ++ [.get k (c.get k).1]) (c.get k).2 := by
  rw [get_fst]
  cases hp : c.peek k with
  | none =>
    rw [show (c.get k).2 = c by rw [Cache.get, hp]]
    exact h.concat_of_idle rfl rfl fun _ => rfl
  | some v =>
    exact {
      capacity_eq := (capacity_get c k).trans h.capacity_eq
      keeps := by
        rw [latestUses_concat]
        exact h.keeps.get (nodup_latestUses ..) hp
      values := fun e he => by
        rw [lastSet?_concat_of_none fun _ => rfl]
        rcases mem_entries_get hp he with rfl | he
        · exact h.values _ (OrderedMap.mem_of_lookup_eq_some hp)
        · exact h.values e he }

theorem clear (h : Follows capacity history c) :
    Follows capacity (history ++ [.clear]) c.clear where
  capacity_eq := h.capacity_eq
  keeps := by
    rw [latestUses_concat]
    exact keeps_empty c.capacity
  values := fun _ he => absurd he List.not_mem_nil

/-- **One call**: what it gives back is told by the history, and the cache follows the history with
the call in it. -/
theorem perform (h : Follows capacity history c) (operation : Operation κ α) :
    (c.perform operation).1.IsTold capacity history ∧
      Follows capacity (history ++ [(c.perform operation).1]) (c.perform operation).2 := by
  cases operation with
  | put k v => exact ⟨h.isTold_put k v, h.put k v _⟩
  | get k =>
    refine ⟨?_, h.get k⟩
    change Sees capacity history k (c.get k).1
    rw [get_fst]
    exact h.sees_peek k
  | peek k => exact ⟨h.sees_peek k, h.concat_of_idle rfl rfl fun _ => rfl⟩
  | contains k =>
    refine ⟨?_, h.concat_of_idle rfl rfl fun _ => rfl⟩
    change c.contains k = true ↔ k ∈ held capacity history
    rw [contains_iff, h.keys_eq]
  | clear => exact ⟨trivial, h.clear⟩

/-- A run of calls, after any history. -/
theorem run (h : Follows capacity history c) (operations : List (Operation κ α)) :
    (∀ before event after, (c.run operations).1 = before ++ event :: after →
      event.IsTold capacity (history ++ before)) ∧
      Follows capacity (history ++ (c.run operations).1) (c.run operations).2 := by
  induction operations generalizing c history with
  | nil =>
    refine ⟨fun before event after he => ?_, by rwa [Cache.run, List.append_nil]⟩
    exact absurd he.symm (List.append_ne_nil_of_right_ne_nil _ (List.cons_ne_nil _ _))
  | cons operation operations ih =>
    obtain ⟨htold, hnext⟩ := h.perform operation
    obtain ⟨hrest, hlast⟩ := ih hnext
    rw [List.append_assoc, List.singleton_append] at hlast
    refine ⟨fun before event after he => ?_, hlast⟩
    change (c.perform operation).1 :: ((c.perform operation).2.run operations).1 = _ at he
    cases before with
    | nil =>
      obtain ⟨rfl, -⟩ := List.cons.inj he
      rwa [List.append_nil]
    | cons first before =>
      obtain ⟨rfl, hafter⟩ := List.cons.inj he
      have hlater := hrest before event after hafter
      rwa [List.append_assoc, List.singleton_append] at hlater

end Follows

/-! ### The history tells everything -/

/-- What a run of calls on an empty cache gives back and leaves is told by its history. -/
structure Told (capacity : Nat) (operations : List (Operation κ α)) : Prop where
  /-- What every call gives back is told by the history before it. -/
  events : ∀ before event after,
    ((empty capacity : Cache κ α).run operations).1 = before ++ event :: after →
      event.IsTold capacity before
  /-- The keys are those used latest since everything was dropped, the latest first. -/
  keys : ((empty capacity).run operations).2.keys =
    (latestUses Event.drops Event.used? ((empty capacity).run operations).1).take capacity
  size : ((empty capacity).run operations).2.size =
    min capacity (latestUses Event.drops Event.used? ((empty capacity).run operations).1).length
  /-- No key comes twice among those used latest. -/
  nodup : (latestUses Event.drops Event.used? ((empty capacity).run operations).1).Nodup
  /-- Every value is the one that its key was set to last. -/
  values : ∀ e ∈ ((empty capacity).run operations).2.entries,
    lastSet? ((empty capacity).run operations).1 e.1 = some e.2
  /-- Without any capacity nothing is stored. -/
  nothing : capacity = 0 → ((empty capacity : Cache κ α).run operations).2.entries = []

/-- **The history of a cache tells what it holds and gives back**, in every run of calls, for every
capacity. -/
theorem run_told (capacity : Nat) (operations : List (Operation κ α)) :
    Told capacity operations := by
  obtain ⟨hevents, h⟩ := (follows_empty capacity).run operations
  rw [List.nil_append] at h
  exact {
    events := hevents
    keys := h.keys_eq
    size := by
      rw [Cache.size, length_entries, h.keys_eq]
      exact List.length_take
    nodup := nodup_latestUses ..
    values := h.values
    nothing := h.entries_eq_nil }

/-- The key that was found again stays, and the one used longest ago gives way. -/
example : ((empty 2).run [.put "a" 1, .put "b" 2, .get "a", .put "c" 3]).1 =
    [.put "a" 1 none, .put "b" 2 none, .get "a" (some 1), .put "c" 3 (some ("b", 2))] := by
  decide

end DocMarkup.Cache
