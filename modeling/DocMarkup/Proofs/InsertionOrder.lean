import DocMarkup.Markup.Html
import DocMarkup.Proofs.OrderedMap
import Mathlib.Data.Set.Card
import Mathlib.Order.ConditionallyCompleteLattice.Basic
import Mathlib.Order.Lattice.Nat

/-!
# The history of an insertion-ordered map

What a map holds after any run of calls can be told from the history of its changes, without a look
at its entries. Each call amounts to changes of single keys, one after the other. A change that
sets a key *stands* if no later change drops the key. The first change that stands for a key gives
the key its place in the list, and the last one gives it its value; a key for which none stands is
not in the map.

Properties and styles are such maps. The order in which attributes and declarations are written,
and what is left of those that are merged, is therefore told by the calls that built them.

## Main definitions

* `OrderedMap.Change`, `OrderedMap.Call` : changes of single keys, and calls.
* `OrderedMap.history`, `OrderedMap.run` : the changes that a run of calls amounts to, and the map
  after it.
* `OrderedMap.standing` : the places of the changes that stand for a key.
* `OrderedMap.SetLast`, `OrderedMap.Precedes` : the value and the order that a history tells.

## Main results

* `OrderedMap.Follows.apply` : one change.
* `OrderedMap.Follows.foldl_perform` : runs of calls.
* `OrderedMap.told` : everything that can be asked of a map.
* `OrderedMap.runs_listed` : properties and styles.
-/

namespace DocMarkup.OrderedMap

variable {κ α : Type}

/-- A change of a single key. -/
inductive Change (κ α : Type) where
  | set (k : κ) (v : α)
  | drop (k : κ)

/-- The key that is set or dropped. -/
def Change.key : Change κ α → κ
  | set k _ => k
  | drop k => k

theorem Change.ne_set {c : Change κ α} {k : κ} (h : c.key ≠ k) (v : α) : c ≠ .set k v :=
  fun hc => h (hc ▸ rfl)

theorem Change.ne_drop {c : Change κ α} {k : κ} (h : c.key ≠ k) : c ≠ .drop k :=
  fun hc => h (hc ▸ rfl)

/-- A call that changes a map. -/
inductive Call (κ α : Type) where
  | insert (k : κ) (v : α)
  | erase (k : κ)
  | overlay (n : OrderedMap κ α)

/-- The changes that a call amounts to. A map that is laid over another sets its keys in order. -/
def Call.changes : Call κ α → List (Change κ α)
  | insert k v => [.set k v]
  | erase k => [.drop k]
  | overlay n => n.entries.map fun e => .set e.1 e.2

/-- The changes that calls one after the other amount to. -/
def history (calls : List (Call κ α)) : List (Change κ α) := calls.flatMap Call.changes

/-- The places of a history at which a key is set and after which it is not dropped. -/
def standing (history : List (Change κ α)) (k : κ) : Set Nat :=
  {i | (∃ v, history[i]? = some (.set k v)) ∧ ∀ j, i < j → history[j]? ≠ some (.drop k)}

/-- The last change that stands for a key sets it to the value. -/
def SetLast (history : List (Change κ α)) (k : κ) (v : α) : Prop :=
  ∃ i, IsGreatest (standing history k) i ∧ history[i]? = some (.set k v)

/-- The first change that stands for one key is before the first that stands for the other. -/
def Precedes (history : List (Change κ α)) (a b : κ) : Prop :=
  ∃ i j, IsLeast (standing history a) i ∧ IsLeast (standing history b) j ∧ i < j

/-! ### One more change in a history -/

section History

variable {history : List (Change κ α)} {c : Change κ α} {k : κ} {i : Nat}

theorem lt_length_of_mem_standing (h : i ∈ standing history k) : i < history.length := by
  obtain ⟨⟨v, hv⟩, -⟩ := h
  exact (List.getElem?_eq_some_iff.1 hv).1

theorem exists_isGreatest_standing (h : (standing history k).Nonempty) :
    ∃ i, IsGreatest (standing history k) i := by
  have hbound : BddAbove (standing history k) :=
    ⟨history.length, fun _ hi => (lt_length_of_mem_standing hi).le⟩
  exact ⟨_, Nat.sSup_mem h hbound, fun _ hi => le_csSup hbound hi⟩

/-- A key has a value in a history just if a change of it stands. -/
theorem exists_setLast_iff : (∃ v, SetLast history k v) ↔ (standing history k).Nonempty := by
  constructor
  · rintro ⟨v, i, hi, -⟩
    exact ⟨i, hi.1⟩
  · intro h
    obtain ⟨i, hi⟩ := exists_isGreatest_standing h
    obtain ⟨v, hv⟩ := hi.1.1
    exact ⟨v, i, hi, hv⟩

theorem getElem?_concat_iff {d : Change κ α} : (history ++ [c])[i]? = some d ↔
    history[i]? = some d ∨ i = history.length ∧ c = d := by
  rcases Nat.lt_trichotomy i history.length with h | rfl | h
  · rw [List.getElem?_append_left h]
    simp [h.ne]
  · simp
  · rw [List.getElem?_eq_none (by simp; omega), List.getElem?_eq_none h.le]
    simp [h.ne']

/-- What stands after one more change stood before or is that change, which must not drop the
key. -/
theorem mem_standing_concat : i ∈ standing (history ++ [c]) k ↔
    (i ∈ standing history k ∨ i = history.length ∧ ∃ v, c = .set k v) ∧ c ≠ .drop k := by
  constructor
  · rintro ⟨⟨v, hv⟩, hlater⟩
    rcases getElem?_concat_iff.1 hv with hv | ⟨rfl, rfl⟩
    -- the new change is later than all others, so it can undo any of them but not itself
    · refine ⟨Or.inl ⟨⟨v, hv⟩, fun j hj hd => ?_⟩, fun hc => ?_⟩
      · exact hlater j hj (getElem?_concat_iff.2 (Or.inl hd))
      · have hi : i < history.length := (List.getElem?_eq_some_iff.1 hv).1
        exact hlater _ hi (getElem?_concat_iff.2 (Or.inr ⟨rfl, hc⟩))
    · exact ⟨Or.inr ⟨rfl, v, rfl⟩, by simp⟩
  · rintro ⟨⟨⟨v, hv⟩, hlater⟩ | ⟨rfl, v, rfl⟩, hc⟩
    · refine ⟨⟨v, getElem?_concat_iff.2 (Or.inl hv)⟩, fun j hj hd => ?_⟩
      exact (getElem?_concat_iff.1 hd).elim (hlater j hj) fun hd => hc hd.2
    · refine ⟨⟨v, getElem?_concat_iff.2 (Or.inr ⟨rfl, rfl⟩)⟩, fun j hj hd => ?_⟩
      exact (getElem?_concat_iff.1 hd).elim
        (fun hd => absurd (List.getElem?_eq_some_iff.1 hd).1 (by omega)) fun hd => hc hd.2

/-- A change of another key leaves what stands. -/
theorem standing_concat_of_ne (h : c.key ≠ k) :
    standing (history ++ [c]) k = standing history k := by
  ext i
  simp [mem_standing_concat, Change.ne_set h, Change.ne_drop h]

theorem standing_concat_set (v : α) :
    standing (history ++ [.set k v]) k = standing history k ∪ {history.length} := by
  ext i
  simp [mem_standing_concat, or_comm]

theorem standing_concat_drop : standing (history ++ [.drop k]) k = ∅ := by
  ext i
  simp [mem_standing_concat]

theorem setLast_concat_of_ne (h : c.key ≠ k) {v : α} :
    SetLast (history ++ [c]) k v ↔ SetLast history k v := by
  simp [SetLast, standing_concat_of_ne h, getElem?_concat_iff, Change.ne_set h]

theorem setLast_concat_set {v w : α} : SetLast (history ++ [.set k w]) k v ↔ v = w := by
  have hlast : IsGreatest (standing (history ++ [.set k w]) k) history.length := by
    rw [standing_concat_set]
    refine ⟨Or.inr rfl, ?_⟩
    rintro i (hi | rfl)
    · exact (lt_length_of_mem_standing hi).le
    · exact le_rfl
  constructor
  · rintro ⟨i, hi, hv⟩
    obtain rfl := hi.unique hlast
    simpa [eq_comm] using hv
  · rintro rfl
    exact ⟨history.length, hlast, by simp⟩

theorem not_setLast_concat_drop {v : α} : ¬ SetLast (history ++ [.drop k]) k v := by
  rintro ⟨i, hi, -⟩
  rw [standing_concat_drop] at hi
  exact hi.1

/-- The first change that stands for a key stays the first until the key is dropped. -/
theorem isLeast_standing_concat (h : IsLeast (standing history k) i) (hc : c ≠ .drop k) :
    IsLeast (standing (history ++ [c]) k) i := by
  refine ⟨mem_standing_concat.2 ⟨Or.inl h.1, hc⟩, fun j hj => ?_⟩
  rcases (mem_standing_concat.1 hj).1 with hj | ⟨rfl, -⟩
  · exact h.2 hj
  · exact (lt_length_of_mem_standing h.1).le

theorem Precedes.concat {a b : κ} (h : Precedes history a b) (ha : c ≠ .drop a)
    (hb : c ≠ .drop b) : Precedes (history ++ [c]) a b := by
  obtain ⟨i, j, hi, hj, hlt⟩ := h
  exact ⟨i, j, isLeast_standing_concat hi ha, isLeast_standing_concat hj hb, hlt⟩

/-- A new key comes behind every key for which a change stands. -/
theorem precedes_concat_set {a : κ} (ha : (standing history a).Nonempty)
    (hk : standing history k = ∅) (v : α) : Precedes (history ++ [.set k v]) a k := by
  have hfirst := isLeast_csInf ha
  refine ⟨_, history.length, isLeast_standing_concat hfirst (by simp), ?_,
    lt_length_of_mem_standing hfirst.1⟩
  rw [standing_concat_set, hk]
  simp

end History

/-! ### One call and runs of calls -/

variable [DecidableEq κ]

/-- The map after a change. -/
def apply (m : OrderedMap κ α) : Change κ α → OrderedMap κ α
  | .set k v => m.insert k v
  | .drop k => m.erase k

/-- The map after a call. -/
def perform (m : OrderedMap κ α) : Call κ α → OrderedMap κ α
  | .insert k v => m.insert k v
  | .erase k => m.erase k
  | .overlay n => m.overlay n

/-- The map after calls one after the other, from the map without entries. -/
def run (calls : List (Call κ α)) : OrderedMap κ α := calls.foldl perform ∅

theorem perform_eq_foldl (m : OrderedMap κ α) (call : Call κ α) :
    m.perform call = call.changes.foldl apply m := by
  cases call with
  | insert | erase => rfl
  | overlay n =>
    rw [perform, Call.changes, List.foldl_map]
    rfl

/-- A map is as a history tells. -/
structure Follows (history : List (Change κ α)) (m : OrderedMap κ α) : Prop where
  /-- Every key has the value that it was set to last. -/
  values : ∀ k v, m.get? k = some v ↔ SetLast history k v
  /-- The keys are in the order in which they were set first. -/
  ordered : m.keys.Pairwise (Precedes history)

theorem follows_empty : Follows [] (∅ : OrderedMap κ α) where
  values k v := by
    constructor
    · intro h
      cases h
    · rintro ⟨i, -, hv⟩
      simp at hv
  ordered := .nil

namespace Follows

variable {history : List (Change κ α)} {m : OrderedMap κ α}

theorem mem_keys_iff (h : Follows history m) {k : κ} :
    k ∈ m.keys ↔ (standing history k).Nonempty := by
  rw [← exists_setLast_iff, ← contains_iff, contains, Option.isSome_iff_exists]
  simp only [h.values]

theorem insert (h : Follows history m) (k : κ) (v : α) :
    Follows (history ++ [.set k v]) (m.insert k v) where
  values j w := by
    by_cases hj : j = k
    · rw [hj, get?_insert_self, setLast_concat_set, Option.some_inj, eq_comm]
    · rw [get?_insert_of_ne hj, h.values, setLast_concat_of_ne (Ne.symm hj)]
  ordered := by
    have hold : m.keys.Pairwise (Precedes (history ++ [.set k v])) :=
      h.ordered.imp fun hab => hab.concat (by simp) (by simp)
    rw [keys_insert]
    split
    · exact hold
    · rename_i hk
      have hnew : standing history k = ∅ := Set.not_nonempty_iff_eq_empty.1 (mt h.mem_keys_iff.2 hk)
      refine List.pairwise_append.2 ⟨hold, List.pairwise_singleton _ _, fun a ha b hb => ?_⟩
      rw [List.mem_singleton.1 hb]
      exact precedes_concat_set (h.mem_keys_iff.1 ha) hnew v

theorem erase (h : Follows history m) (k : κ) :
    Follows (history ++ [.drop k]) (m.erase k) where
  values j w := by
    by_cases hj : j = k
    · simp [hj, not_setLast_concat_drop]
    · rw [get?_erase_of_ne hj, h.values, setLast_concat_of_ne (Ne.symm hj)]
  ordered := by
    rw [keys_erase]
    refine (h.ordered.filter _).imp_of_mem fun ha hb hab => ?_
    have hne {a : κ} (ha : a ∈ m.keys.filter (· ≠ k)) : (.drop k : Change κ α) ≠ .drop a := by
      have hak : a ≠ k := of_decide_eq_true (List.mem_filter.1 ha).2
      simpa using hak.symm
    exact hab.concat (hne ha) (hne hb)

/-- **One change**: a map that follows a history follows it with the change at its end. -/
theorem apply (h : Follows history m) (c : Change κ α) : Follows (history ++ [c]) (m.apply c) := by
  cases c with
  | set k v => exact h.insert k v
  | drop k => exact h.erase k

theorem foldl_apply (h : Follows history m) (changes : List (Change κ α)) :
    Follows (history ++ changes) (changes.foldl OrderedMap.apply m) := by
  induction changes generalizing history m with
  | nil => rwa [List.append_nil]
  | cons c changes ih => simpa using ih (h.apply c)

/-- A run of calls, after any history. -/
theorem foldl_perform (h : Follows history m) (calls : List (Call κ α)) :
    Follows (history ++ OrderedMap.history calls) (calls.foldl perform m) := by
  induction calls generalizing history m with
  | nil => simpa [OrderedMap.history] using h
  | cons call calls ih =>
    have hcall : Follows (history ++ call.changes) (m.perform call) := by
      rw [perform_eq_foldl]
      exact h.foldl_apply call.changes
    simpa [OrderedMap.history] using ih hcall

end Follows

/-! ### The history tells everything -/

/-- What can be asked of a map after a run of calls is told by the history of its changes. -/
structure Told (calls : List (Call κ α)) : Prop where
  /-- No key is listed twice. -/
  nodup : (run calls).keys.Nodup
  /-- The keys that are listed are those for which a change stands. -/
  mem_keys : ∀ k, k ∈ (run calls).keys ↔ (standing (history calls) k).Nonempty
  /-- The keys are in the order of the first changes that stand for them. -/
  ordered : (run calls).keys.Pairwise (Precedes (history calls))
  /-- The value of a key is the one that it was set to last. -/
  get? : ∀ k v, (run calls).get? k = some v ↔ SetLast (history calls) k v
  contains : ∀ k, (run calls).contains k = true ↔ (standing (history calls) k).Nonempty
  size : (run calls).size = {k | (standing (history calls) k).Nonempty}.ncard
  /-- A key that is set again has its value replaced in its place, and a new one comes last. -/
  entries_insert : ∀ k v, ((run calls).insert k v).entries =
    if k ∈ (run calls).keys then (run calls).entries.set ((run calls).keys.idxOf k) (k, v)
    else (run calls).entries ++ [(k, v)]
  /-- Dropping a key takes out the entry in its place and leaves the others. -/
  entries_erase : ∀ k,
    ((run calls).erase k).entries = (run calls).entries.eraseIdx ((run calls).keys.idxOf k)
  /-- A key that is dropped and set again comes last. -/
  entries_insert_erase : ∀ k v, (((run calls).erase k).insert k v).entries =
    (run calls).entries.eraseIdx ((run calls).keys.idxOf k) ++ [(k, v)]
  /-- The values of a map that is laid over count before those from before. -/
  get?_overlay : ∀ n k, ((run calls).overlay n).get? k = (n.get? k).or ((run calls).get? k)
  /-- The keys from before come first, then the others of the map that is laid over. -/
  keys_overlay : ∀ n : OrderedMap κ α, ((run calls).overlay n).keys =
    (run calls).keys ++ n.keys.filter (· ∉ (run calls).keys)

theorem told (calls : List (Call κ α)) : Told calls := by
  have h : Follows (history calls) (run calls) := follows_empty.foldl_perform calls
  have hnodup : (run calls).keys.Nodup := (run calls).nodup_keys
  have hpresent : {k | (standing (history calls) k).Nonempty} = (run calls).keys.toFinset := by
    ext k
    simp [h.mem_keys_iff]
  exact {
    nodup := hnodup
    mem_keys := fun _ => h.mem_keys_iff
    ordered := h.ordered
    get? := h.values
    contains := fun _ => contains_iff.trans h.mem_keys_iff
    size := by
      rw [hpresent, Set.ncard_coe_finset, List.toFinset_card_of_nodup hnodup, keys,
        List.length_map, OrderedMap.size]
    entries_insert := entries_insert (run calls)
    entries_erase := entries_erase (run calls)
    entries_insert_erase := entries_insert_erase (run calls)
    get?_overlay := get?_overlay (run calls)
    keys_overlay := keys_overlay (run calls) }

/-- **Properties and styles list what was set, in the order in which it was set first**, after any
run of calls. A property has a text just if it was set to that text last. -/
theorem runs_listed :
    (∀ calls : List (Call String PropValue), Told calls ∧ ∀ name s,
      Props.text? (run calls) name = some s ↔ SetLast (history calls) name (.text s)) ∧
    ∀ calls : List (Call String String), Told calls := by
  refine ⟨fun calls => ⟨told calls, fun name s => ?_⟩, told⟩
  rw [← (told calls).get?, Props.text?]
  split
  · rename_i hs
    simp [hs]
  · rename_i hnone
    simpa using hnone s

/-- A key that is set again keeps its place, and one that is dropped and set again comes last. -/
example : (run [.insert "a" 1, .insert "b" 2, .insert "c" 3, .insert "a" 4, .erase "b",
    .insert "b" 5]).entries = [("a", 4), ("c", 3), ("b", 5)] := by
  decide

end DocMarkup.OrderedMap
