import DocMarkup.Dict
import DocMarkup.Proofs.OrderedMap
import Mathlib.Data.List.Perm.Basic

/-!
# What a dictionary holds

The value of a key is the one that the key is listed with, and the keys, being in ascending order,
do not repeat.

## Main results

* `Dict.get?_eq_some_iff`, `Dict.get?_eq_none_iff` : the value of a key.
* `Dict.nodup_keys` : no key is listed twice.
* `Dict.foldl_place_eq`, `Dict.foldl_insert_eq` : a dictionary from its entries in any order.
-/

namespace DocMarkup.Dict

variable {α : Type} {d : Dict α} {k : String}

/-- Keys in ascending order do not repeat. -/
theorem nodup_of_ascending {keys : List String} (h : keys.Pairwise (· < ·)) : keys.Nodup :=
  h.imp fun hlt he => by
    subst he
    exact String.lt_irrefl _ hlt

theorem nodup_keys : d.keys.Nodup := nodup_of_ascending d.ascending

theorem get?_eq_some_iff {v : α} : d.get? k = some v ↔ (k, v) ∈ d.entries :=
  OrderedMap.lookup_eq_some_iff_mem nodup_keys

theorem get?_eq_none_iff : d.get? k = none ↔ k ∉ d.keys :=
  OrderedMap.lookup_eq_none_iff_notMem

theorem place_perm {v : α} {es : List (String × α)} (h : k ∉ es.map Prod.fst) :
    (place k v es).Perm ((k, v) :: es) := by
  induction es with
  | nil => exact .refl _
  | cons e rest ih =>
    rw [List.map_cons, List.mem_cons, not_or] at h
    rw [place, if_neg h.1]
    split
    · exact .refl _
    · exact ((ih h.2).cons e).trans (.swap ..)

/-- Entries with new keys, placed one by one. -/
theorem foldl_place_perm {ps es : List (String × α)} (h : ((es ++ ps).map Prod.fst).Nodup) :
    (ps.foldl (fun es p => place p.1 p.2 es) es).Perm (es ++ ps) := by
  induction ps generalizing es with
  | nil => rw [List.append_nil]; exact .refl _
  | cons p ps ih =>
    have hp : p.1 ∉ es.map Prod.fst := fun hm => by
      rw [List.map_append, List.nodup_append] at h
      exact h.2.2 p.1 hm p.1 List.mem_cons_self rfl
    have hplace : (place p.1 p.2 es ++ ps).Perm (es ++ p :: ps) :=
      ((place_perm hp).append_right ps).trans List.perm_middle.symm
    exact (ih ((hplace.map Prod.fst).nodup_iff.2 h)).trans hplace

theorem ascending_foldl_place {ps es : List (String × α)}
    (h : (es.map Prod.fst).Pairwise (· < ·)) :
    ((ps.foldl (fun es p => place p.1 p.2 es) es).map Prod.fst).Pairwise (· < ·) := by
  induction ps generalizing es with
  | nil => exact h
  | cons p ps ih => exact ih (pairwise_place h)

/-- There is one list of the same entries in ascending order. -/
theorem eq_of_perm {es es' : List (String × α)} (h : (es.map Prod.fst).Pairwise (· < ·))
    (h' : (es'.map Prod.fst).Pairwise (· < ·)) (hperm : es.Perm es') : es = es' := by
  rw [List.pairwise_map] at h h'
  exact hperm.eq_of_pairwise
    (fun a b _ _ hab hba => absurd (String.lt_trans hab hba) (String.lt_irrefl _)) h h'

/-- Ascending entries that are placed in any order are those entries. -/
theorem foldl_place_eq {ps es : List (String × α)} (h : (es.map Prod.fst).Pairwise (· < ·))
    (hperm : ps.Perm es) : ps.foldl (fun es p => place p.1 p.2 es) [] = es := by
  have hnodup : (ps.map Prod.fst).Nodup :=
    (hperm.map Prod.fst).nodup_iff.2 (nodup_of_ascending h)
  have hplace : (ps.foldl (fun es p => place p.1 p.2 es) []).Perm ps := foldl_place_perm hnodup
  exact eq_of_perm (ascending_foldl_place .nil) h (hplace.trans hperm)

/-- A dictionary from its entries in any order. -/
theorem foldl_insert_eq {ps : List (String × α)} (hperm : ps.Perm d.entries) :
    ps.foldl (fun d p => d.insert p.1 p.2) ∅ = d := by
  have hentries (d : Dict α) : (ps.foldl (fun d p => d.insert p.1 p.2) d).entries =
      ps.foldl (fun es p => place p.1 p.2 es) d.entries := by
    clear hperm
    induction ps generalizing d with
    | nil => rfl
    | cons p ps ih => rw [List.foldl_cons, List.foldl_cons, ih]; rfl
  exact ext ((hentries ∅).trans (foldl_place_eq d.ascending hperm))

end DocMarkup.Dict
