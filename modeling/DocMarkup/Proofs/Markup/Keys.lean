import DocMarkup.Proofs.Footnote.Identifier
import DocMarkup.Proofs.Markup.Landmark
import DocMarkup.RawHtml.Sanitize
import Mathlib.Data.List.Nodup
import Mathlib.Data.List.Perm.Subperm

/-!
# Keys of siblings

Keys tell siblings apart, so no two siblings may have the same one. Most keys are the places that
siblings were given before some of them were dropped: what is left has different keys because a
place is passed only once and its key tells it. This is what raw HTML and the nodes of a tree have
in common, and it is said here for both.

## Main definitions

* `Html.keys` : the keys of trees side by side.
* `Html.KeysDifferInside` : siblings inside trees have different keys.
* `Html.KeysDiffer` : so do these trees themselves.
* `Html.KeyedAs` : what stands at one key.
* `Html.KeyedFrom` : what stands at the keys of places from one on.

## Main results

* `Html.KeyedFrom.append` : what stands at a place goes before what stands at later ones.
* `RawHtml.keyedFrom_sanitizeNodes` : sanitized raw HTML stands at its places.
-/

namespace DocMarkup

/-- A text with a character that is no digit is no numeral. -/
theorem Decimal.ne_text {s : String} (h : s.toList.all Char.isDigit = false) (i : Nat) :
    s ≠ text i := by
  rintro rfl
  obtain ⟨c, hc, hdigit⟩ := List.all_eq_false.1 h
  rw [toList_text] at hc
  exact hdigit (isDigit_of_mem_digits hc)

namespace Html

/-- The keys of trees side by side, of those that have one. -/
def keys (hs : List Html) : List String := hs.filterMap key?

/-- Siblings inside the trees have different keys. -/
def KeysDifferInside (hs : List Html) : Prop := ∀ h ∈ subtreesAll hs, (keys h.children).Nodup

/-- The trees have different keys, and so do siblings inside them. -/
structure KeysDiffer (hs : List Html) : Prop where
  nodup : (keys hs).Nodup
  inside : KeysDifferInside hs

/-- Trees in which siblings have different keys, with no other key than this one at the top. -/
structure KeyedAs (key : Option String) (hs : List Html) : Prop where
  differ : KeysDiffer hs
  key_eq : ∀ k ∈ keys hs, key = some k

/-- Trees in which siblings have different keys, with keys of places from `i` on at the top. -/
structure KeyedFrom (place : Nat → String) (i : Nat) (hs : List Html) : Prop where
  differ : KeysDiffer hs
  exists_place : ∀ k ∈ keys hs, ∃ j, i ≤ j ∧ k = place j

variable {hs hs' kids : List Html} {tag : String} {key : Option String} {props : Props}

theorem keys_append (hs hs' : List Html) : keys (hs ++ hs') = keys hs ++ keys hs' :=
  List.filterMap_append

theorem keys_cons_of_none {h : Html} (hkey : h.key? = none) : keys (h :: hs) = keys hs :=
  List.filterMap_cons_none hkey

theorem keysDifferInside_nil : KeysDifferInside [] := fun _ h => absurd h List.not_mem_nil

theorem keysDifferInside_append :
    KeysDifferInside (hs ++ hs') ↔ KeysDifferInside hs ∧ KeysDifferInside hs' := by
  simp only [KeysDifferInside, subtreesAll_append, List.mem_append, or_imp, forall_and]

theorem keysDifferInside_cons {h : Html} :
    KeysDifferInside (h :: hs) ↔ KeysDifferInside [h] ∧ KeysDifferInside hs :=
  @keysDifferInside_append [h] hs

theorem keysDifferInside_iff : KeysDifferInside hs ↔ ∀ h ∈ hs, KeysDifferInside [h] := by
  induction hs with
  | nil => simp [keysDifferInside_nil]
  | cons h hs ih => rw [keysDifferInside_cons, ih, List.forall_mem_cons]

theorem keysDifferInside_text {s : String} : KeysDifferInside [.text s] := by
  intro h hm
  obtain rfl : h = .text s := by simpa [subtreesAll, subtrees] using hm
  exact List.nodup_nil

/-- The siblings inside an element are its children and those inside these. -/
theorem keysDifferInside_element :
    KeysDifferInside [.element tag key props kids] ↔ KeysDiffer kids := by
  rw [KeysDifferInside, subtreesAll, subtreesAll, subtrees, List.append_nil,
    List.forall_mem_cons]
  exact ⟨fun h => ⟨h.1, h.2⟩, fun h => ⟨h.nodup, h.inside⟩⟩

theorem keysDifferInside_fragment :
    KeysDifferInside [.fragment key kids] ↔ KeysDiffer kids := by
  rw [KeysDifferInside, subtreesAll, subtreesAll, subtrees, List.append_nil,
    List.forall_mem_cons]
  exact ⟨fun h => ⟨h.1, h.2⟩, fun h => ⟨h.nodup, h.inside⟩⟩

namespace KeysDiffer

theorem nil : KeysDiffer [] := ⟨List.nodup_nil, keysDifferInside_nil⟩

theorem append (h : KeysDiffer hs) (h' : KeysDiffer hs') (hne : ∀ k ∈ keys hs, k ∉ keys hs') :
    KeysDiffer (hs ++ hs') where
  nodup := by
    rw [keys_append]
    exact h.nodup.append h'.nodup hne
  inside := keysDifferInside_append.2 ⟨h.inside, h'.inside⟩

/-- A tree without a key goes anywhere. -/
theorem cons {h : Html} (hkey : h.key? = none) (hinside : KeysDifferInside [h])
    (hrest : KeysDiffer hs) : KeysDiffer (h :: hs) where
  nodup := by
    rw [keys_cons_of_none hkey]
    exact hrest.nodup
  inside := keysDifferInside_cons.2 ⟨hinside, hrest.inside⟩

theorem concat {h : Html} (hkey : h.key? = none) (hinside : KeysDifferInside [h])
    (hbefore : KeysDiffer hs) : KeysDiffer (hs ++ [h]) :=
  hbefore.append (cons hkey hinside nil) fun k _ hk => by
    rw [keys_cons_of_none hkey] at hk
    exact absurd hk List.not_mem_nil

/-- Some of the trees, in any order. -/
theorem of_subperm (h : KeysDiffer hs) (hsub : hs'.Subperm hs) : KeysDiffer hs' where
  nodup := by
    obtain ⟨l, hperm, hl⟩ := hsub
    exact (hperm.filterMap key?).nodup_iff.1 (h.nodup.sublist (hl.filterMap key?))
  inside := keysDifferInside_iff.2 fun t ht => keysDifferInside_iff.1 h.inside t (hsub.subset ht)

end KeysDiffer

namespace KeyedAs

theorem nil : KeyedAs key [] := ⟨.nil, fun _ h => absurd h List.not_mem_nil⟩

theorem text {s : String} : KeyedAs key [.text s] :=
  ⟨.cons rfl keysDifferInside_text .nil, fun _ h => absurd h List.not_mem_nil⟩

theorem of_key? {h : Html} (hkey : h.key? = key) (hinside : KeysDifferInside [h]) :
    KeyedAs key [h] := by
  have hkeys : keys [h] = key.toList := by
    rw [← hkey, keys, List.filterMap_cons]
    cases h.key? <;> rfl
  refine ⟨⟨?_, hinside⟩, fun k hk => ?_⟩
  · rw [hkeys]
    cases key <;> simp
  · rw [hkeys] at hk
    exact Option.mem_toList.1 hk

theorem element (h : KeysDiffer kids) : KeyedAs key [.element tag key props kids] :=
  of_key? rfl (keysDifferInside_element.2 h)

theorem fragment (h : KeysDiffer kids) : KeyedAs key [.fragment key kids] :=
  of_key? rfl (keysDifferInside_fragment.2 h)

/-- What stands at a key goes before trees that do not have the key. -/
theorem append {k : String} (h : KeyedAs (some k) hs) (h' : KeysDiffer hs') (hk : k ∉ keys hs') :
    KeysDiffer (hs ++ hs') :=
  h.differ.append h' fun l hl => by
    cases h.key_eq l hl
    exact hk

end KeyedAs

namespace KeyedFrom

variable {place : Nat → String} {i : Nat}

theorem nil : KeyedFrom place i [] := ⟨.nil, fun _ h => absurd h List.not_mem_nil⟩

/-- What stands at a place goes before what stands at later places. -/
theorem append (hplace : place.Injective) (h : KeyedAs (some (place i)) hs)
    (h' : KeyedFrom place (i + 1) hs') : KeyedFrom place i (hs ++ hs') where
  differ := h.append h'.differ fun hk => by
    obtain ⟨j, hj, hij⟩ := h'.exists_place _ hk
    exact absurd (hplace hij) (by omega)
  exists_place := fun k hk => by
    rw [keys_append, List.mem_append] at hk
    rcases hk with hk | hk
    · cases h.key_eq k hk
      exact ⟨i, Nat.le_refl i, rfl⟩
    · obtain ⟨j, hj, hplace⟩ := h'.exists_place k hk
      exact ⟨j, by omega, hplace⟩

theorem of_subperm (h : KeyedFrom place i hs) (hsub : hs'.Subperm hs) :
    KeyedFrom place i hs' where
  differ := h.differ.of_subperm hsub
  exists_place := fun k hk => h.exists_place k <| by
    obtain ⟨t, ht, hkey⟩ := List.mem_filterMap.1 hk
    exact List.mem_filterMap.2 ⟨t, hsub.subset ht, hkey⟩

/-- A key with a character that is no digit is not the numeral of a place. -/
theorem notMem_keys (h : KeyedFrom Decimal.text i hs) {k : String}
    (hk : k.toList.all Char.isDigit = false) : k ∉ keys hs := fun hmem => by
  obtain ⟨j, -, rfl⟩ := h.exists_place k hmem
  exact Decimal.ne_text hk j rfl

end KeyedFrom

end Html

namespace RawHtml

open Html

theorem childKey_injective (key : String) : (childKey key).Injective := fun i j h => by
  rw [childKey, childKey, String.append_right_inj, Decimal.text_inj] at h
  exact h

mutual

/-- A sanitized node stands at its place among its siblings. -/
theorem keyedAs_sanitizeNode? (key : String) (i : Nat) :
    (n : RawNode) → KeyedAs (some (childKey key i)) (sanitizeNode? key i n).toList
  | .text _ => .text
  | .element tag attrs kids => by
      rw [sanitizeNode?]
      split
      · exact .nil
      · exact .element (keyedFrom_sanitizeNodes _ 0 kids).differ

/-- Sanitized siblings stand at their places. Blocked ones leave theirs empty. -/
theorem keyedFrom_sanitizeNodes (key : String) (i : Nat) :
    (ns : List RawNode) → KeyedFrom (childKey key) i (sanitizeNodes key i ns)
  | [] => .nil
  | n :: rest => by
      rw [sanitizeNodes]
      exact .append (childKey_injective key) (keyedAs_sanitizeNode? key i n)
        (keyedFrom_sanitizeNodes key (i + 1) rest)

end

end RawHtml

end DocMarkup
