import DocMarkup.Proofs.RawHtml.Listing
import DocMarkup.Proofs.Render.PlainOutput

/-!
# Roles in written markup

A role is read from the markup of an element if it has a property whose name is `role` in any
letter case. Where no attribute has such a name, the only role that the output of a node is read
with is that of a reference, and every tag in it is read as it is written. So none of the elements
that are read from it is a link back.

## Main definitions

* `isRoleName` : whether a name is read as `role`.
* `RawHtml.isBacklink`, `RawHtml.backlinks` : the links back in raw HTML.

## Main results

* `Html.exists_of_lookup_role` : where a role that is read comes from.
* `Render.stray_each` : nothing in an output is read as a link back or with another tag.
-/

namespace DocMarkup

/-- Whether the name of a property is read as `role`. -/
def isRoleName (name : String) : Bool := RawHtml.lowered name.toList = "role"

theorem isForeign_isRoleName : IsForeign isRoleName := by
  unfold IsForeign
  decide

namespace RawHtml

/-- Whether an element with these attributes is an anchor with the role of a link back. -/
def isBacklink (e : String × List (String × String)) : Bool :=
  e.1 = "a" && e.2.lookup "role" = some "doc-backlink"

/-- The links back in raw HTML in order, by where they lead. -/
def backlinks (ns : List RawNode) : List (Option String) :=
  ((elementsOf ns).filter isBacklink).map fun e => e.2.lookup "href"

end RawHtml

namespace Html

open RawHtml

theorem isRoleName_of_attributeName {name : String}
    (h : lowered (attributeName name).toList = "role") : isRoleName name = true := by
  unfold attributeName at h
  split at h
  · exact absurd h (by decide)
  split at h
  · exact absurd h (by decide)
  · exact decide_eq_true h

/-- A role that is read comes from a property whose name is read as `role`. -/
theorem exists_of_lookup_role {p : Props} {v : String}
    (h : (readProperties p).lookup "role" = some v) :
    ∃ name value, isRoleName name = true ∧ p.get? name = some value ∧
      attributeValue? value = some v := by
  rw [← map_readBack_attributes] at h
  obtain ⟨⟨written, w⟩, ha, hback⟩ := List.mem_map.1 (OrderedMap.mem_of_lookup_eq_some h)
  rw [readBack, Prod.mk.injEq] at hback
  obtain ⟨hrole, rfl⟩ := hback
  obtain ⟨⟨name, value⟩, he, hattr⟩ := List.mem_filterMap.1 ha
  obtain ⟨-, rfl, hvalue⟩ := attribute?_eq_some_iff.1 hattr
  exact ⟨name, value, isRoleName_of_attributeName hrole, OrderedMap.get?_of_mem_entries he, hvalue⟩

/-- An element that is not read as it is written, or that is read as a link back. -/
def stray? : Html → Option Unit
  | element tag _ props _ =>
    if isSmallName tag.toList && !isBacklink (tag, readProperties props) then none else some ()
  | text _ | fragment .. => none

theorem overlooks_stray? : Overlooks stray? isRoleName where
  text := fun _ => rfl
  fragment := fun _ _ => rfl
  element := fun tag key props kids htag h => by
    have hsmall : ∀ tag ∈ defaultTags, isSmallName tag.toList = true := by decide
    have hrole : (readProperties props).lookup "role" = none := by
      refine Option.eq_none_iff_forall_ne_some.2 fun v hv => ?_
      obtain ⟨name, value, hname, hget, -⟩ := exists_of_lookup_role hv
      rw [h name hname] at hget
      cases hget
    rw [stray?, isBacklink, hsmall tag htag, hrole]
    simp

section Stray

variable {hs : List Html} (h : collect stray? hs = [])

include h

theorem not_stray_of_mem {tag : String} {key : Option String} {props : Props} {kids : List Html}
    (hm : .element tag key props kids ∈ subtreesAll hs) :
    isSmallName tag.toList = true ∧ isBacklink (tag, readProperties props) = false := by
  have hnone := List.filterMap_eq_nil_iff.1 h _ hm
  rw [stray?] at hnone
  split at hnone
  · rename_i hand
    simpa using hand
  · cases hnone

theorem hasSmallTags_of_stray : HasSmallTags hs := fun _ _ _ _ hm => (not_stray_of_mem h hm).1

theorem filter_isBacklink_of_stray : (writtenElementsAll hs).filter isBacklink = [] := by
  refine List.filter_eq_nil_iff.2 fun e he => ?_
  obtain ⟨tree, hm, hread⟩ := List.mem_filterMap.1 (writtenElementsAll_subset hs he)
  cases tree with
  | element tag key props kids =>
    cases hread
    rw [(not_stray_of_mem h hm).2]
    exact Bool.false_ne_true
  | _ => cases hread

end Stray

end Html

namespace Single

open Html RawHtml

/-- A reference has no other role. -/
theorem stray?_footnoteReference {n : Node} (hn : n.avoids isRoleName = true) (key : Option String)
    (label : String) (a : Anchor) : stray? (footnoteReference ∅ n key label a) = none := by
  have hrole {v : String}
      (hv : (readProperties (n.props (referenceProps a))).lookup "role" = some v) :
      v = "doc-noteref" := by
    obtain ⟨name, value, hname, hget, hvalue⟩ := exists_of_lookup_role hv
    rw [Node.get?_props_of_avoids hn (by decide) hname, referenceProps] at hget
    by_cases hrole : name = "role"
    · rw [hrole, OrderedMap.get?_insert_self] at hget
      cases hget
      exact (Option.some.inj hvalue).symm
    · have hlacks : Props.Lacks isRoleName ((single "href" a.href).insert "id" (.text a.id)) :=
        (lacks_single isForeign_isRoleName "href" (by decide) _).insert (by decide) _
      rw [OrderedMap.get?_insert_of_ne hrole, hlacks name hname] at hget
      cases hget
  have hback : isBacklink ("a", readProperties (n.props (referenceProps a))) = false := by
    rw [isBacklink, Bool.and_eq_false_iff]
    refine Or.inr (decide_eq_false fun hv => ?_)
    exact absurd (hrole hv) (by decide)
  rw [footnoteReference_eq, stray?, hback]
  rfl

end Single

namespace Render

open Html Single

/-- Nothing in what nodes without roles render to is read differently or as a link back. -/
theorem stray_each {links : Links} (hl : links.Avoids isRoleName) {ns : List Node}
    (hns : ∀ n ∈ Node.forest ns, n.avoids isRoleName = true) (i : Nat) (tight : Option Bool)
    (σ : Numbering) : collect stray? (present (each ⟨∅, links⟩ tight i ns σ).1) = [] :=
  collect_each_eq_nil overlooks_stray? isForeign_isRoleName
    (fun _ key label a hn => stray?_footnoteReference hn key label a) hl hns i tight σ

end Render

end DocMarkup
