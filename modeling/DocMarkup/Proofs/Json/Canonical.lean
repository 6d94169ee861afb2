import DocMarkup.Json.Value
import DocMarkup.Proofs.Dict

/-!
# Objects in canonical form

Where no name repeats, the canonical form of an object has its members, each in canonical form, in
another order.

## Main results

* `Json.Value.canonicalMembers_perm` : the members of an object in canonical form.
-/

namespace DocMarkup.Json.Value

theorem place_eq (k : String) (v : Value) (members : List (String × Value)) :
    place k v members = Dict.place k v members := by
  induction members with
  | nil => rfl
  | cons e rest ih => rw [place, Dict.place, ih]

theorem canonicalMembers_eq_foldl (sorted members : List (String × Value)) :
    canonicalMembers sorted members =
      (members.map fun e => (e.1, e.2.canonical)).foldl
        (fun es p => Dict.place p.1 p.2 es) sorted := by
  induction members generalizing sorted with
  | nil => rfl
  | cons e rest ih =>
    obtain ⟨k, v⟩ := e
    rw [canonicalMembers, ih, place_eq, List.map_cons, List.foldl_cons]

/-- Members with different names are only put in order. -/
theorem canonicalMembers_perm {members : List (String × Value)}
    (h : (members.map Prod.fst).Nodup) :
    (canonicalMembers [] members).Perm (members.map fun e => (e.1, e.2.canonical)) := by
  rw [canonicalMembers_eq_foldl]
  have hmap : ((members.map fun e => (e.1, e.2.canonical)).map Prod.fst).Nodup := by
    rwa [List.map_map]
  exact Dict.foldl_place_perm hmap

end DocMarkup.Json.Value
