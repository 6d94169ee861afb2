import DocMarkup.Proofs.OrderedMap
import DocMarkup.Proofs.RawHtml.Elements
import DocMarkup.Proofs.RawHtml.MarkupTokens
import DocMarkup.RawHtml.Sanitize

/-!
# Sanitized raw HTML stays free of hazards

No element of sanitized raw HTML is one of the blocked ones, handles an event or holds an unsafe
address. The same is true of what a reader makes of its markup: the tags and attributes that are
read there are those that were written, so nothing that was dropped comes back.

## Main definitions

* `Hazard.Free`, `Hazard.FreeProps` : a tag with attributes, or with properties, from which
  nothing can run.

## Main results

* `RawHtml.sanitize_free` : sanitized raw HTML and its markup are free of hazards.
-/

namespace DocMarkup

namespace Hazard

/-- The name starts with `on`, in any mix of capitals. -/
def StartsWithOn (name : String) : Prop := ['o', 'n'] <+: name.toList.map Char.toLower

instance (name : String) : Decidable (StartsWithOn name) :=
  inferInstanceAs (Decidable (_ <+: _))

theorem isEventHandler_iff {name : String} : isEventHandler name = true ↔ StartsWithOn name := by
  unfold isEventHandler StartsWithOn
  split
  · rename_i c d rest h
    simp only [h, List.map_cons, List.cons_prefix_cons, List.nil_prefix, and_true,
      Bool.and_eq_true, decide_eq_true_eq]
    exact ⟨fun h => ⟨h.1.symm, h.2.symm⟩, fun h => ⟨h.1.symm, h.2.symm⟩⟩
  · rename_i h
    refine ⟨fun he => absurd he Bool.false_ne_true, ?_⟩
    rintro ⟨rest, he⟩
    cases hn : name.toList with
    | nil => simp [hn] at he
    | cons c cs =>
      cases cs with
      | nil => simp [hn] at he
      | cons d cs => exact absurd hn (h c d cs)

/-- A tag with attributes from which nothing can run: the tag is not blocked, no attribute handles
an event, and no address has a scheme that must not reach the output. -/
structure Free (tag : String) (attrs : List (String × String)) : Prop where
  tag_allowed : tag ∉ ["base", "embed", "form", "iframe", "meta", "object", "script"]
  no_handler : ∀ a ∈ attrs, ¬ StartsWithOn a.1
  no_unsafe_url : ∀ a ∈ attrs, ¬ isUnsafeUrl a.1 a.2 = true

/-- A tag with properties from which nothing can run. -/
structure FreeProps (tag : String) (props : Props) : Prop where
  tag_allowed : tag ∉ ["base", "embed", "form", "iframe", "meta", "object", "script"]
  no_handler : ∀ e ∈ props.entries, ¬ StartsWithOn e.1
  no_unsafe_url : ∀ e ∈ props.entries, ∀ v, e.2 = .text v → ¬ isUnsafeUrl e.1 v = true

/-- An attribute that is kept: neither does it handle an event nor is its address unsafe. -/
def Passes (name value : String) : Prop := ¬ StartsWithOn name ∧ ¬ isUnsafeUrl name value = true

theorem passes_iff {name value : String} : Passes name value ↔ isUnsafe name value = false := by
  rw [Passes, ← isEventHandler_iff, isUnsafe, Bool.or_eq_false_iff, Bool.not_eq_true,
    Bool.not_eq_true]

theorem Passes.empty {name value : String} (h : Passes name value) : Passes name "" :=
  ⟨h.1, by rw [isUnsafeUrl, show hasUnsafeScheme "".toList = false by decide, Bool.and_false]; simp⟩

theorem passes_of_isUrlAttribute {name value : String} (h : ¬ StartsWithOn name)
    (hu : isUrlAttribute name = false) : Passes name value :=
  ⟨h, by rw [isUnsafeUrl, hu, Bool.false_and]; simp⟩

/-- Whether an attribute is kept does not depend on the case of its name. -/
theorem Passes.lowered {name value : String} (h : Passes name value) :
    Passes (RawHtml.lowered name.toList) value := by
  have hl : (RawHtml.lowered name.toList).toList.map Char.toLower =
      name.toList.map Char.toLower := by
    rw [RawHtml.lowered, String.toList_ofList, List.map_map]
    exact List.map_congr_left fun c _ => Text.toLower_toLower c
  refine ⟨?_, ?_⟩
  · rw [StartsWithOn, hl]
    exact h.1
  · rw [isUnsafeUrl, isUrlAttribute, hl]
    exact h.2

end Hazard

namespace RawHtml

open Hazard (Passes passes_iff)

/-! ### The properties of sanitized elements -/

/-- A property of a sanitized element comes from an attribute that is kept. -/
theorem exists_of_mem_sanitizeAttributes {attrs : List (String × String)} {e : String × PropValue}
    (h : e ∈ (sanitizeAttributes attrs).entries) :
    ∃ name value, (name, value) ∈ attrs ∧ Passes name value ∧ property? name value = some e := by
  obtain ⟨a, ha, he⟩ := List.mem_filterMap.1 (OrderedMap.mem_entries_ofList h)
  obtain ⟨hm, hp⟩ := List.mem_filter.1 ha
  exact ⟨a.1, a.2, hm, passes_iff.2 (by simpa using hp), he⟩

/-- The property of an attribute: one of three renamed or parsed ones, or one of the same name
that holds the value or is a flag. -/
theorem property?_cases {name value : String} {e : String × PropValue}
    (h : property? name value = some e) :
    e.1 = "className" ∨ e.1 = "htmlFor" ∨ (∃ s, e = ("style", .style s)) ∨
      e = (name, .text value) ∨ e = (name, .flag true) := by
  unfold property? at h
  split at h
  · cases h; simp
  split at h
  · cases h; simp
  split at h
  · obtain ⟨s, -, rfl⟩ := Option.map_eq_some_iff.1 h
    simp
  split at h <;> cases h <;> simp

theorem freeProps_sanitizeAttributes {tag : String} (ht : Hazard.isBlocked tag = false)
    (attrs : List (String × String)) : Hazard.FreeProps tag (sanitizeAttributes attrs) where
  tag_allowed := by simpa [Hazard.isBlocked, Hazard.blockedTags] using ht
  no_handler := fun e he => by
    obtain ⟨name, value, -, hp, hprop⟩ := exists_of_mem_sanitizeAttributes he
    rcases property?_cases hprop with h | h | ⟨s, rfl⟩ | rfl | rfl
    · rw [h]; decide
    · rw [h]; decide
    · change ¬ Hazard.StartsWithOn "style"
      decide
    · exact hp.1
    · exact hp.1
  no_unsafe_url := fun e he v hv => by
    obtain ⟨name, value, -, hp, hprop⟩ := exists_of_mem_sanitizeAttributes he
    rcases property?_cases hprop with h | h | ⟨s, rfl⟩ | rfl | rfl
    · rw [h, Hazard.isUnsafeUrl]; simp [show Hazard.isUrlAttribute "className" = false by decide]
    · rw [h, Hazard.isUnsafeUrl]; simp [show Hazard.isUrlAttribute "htmlFor" = false by decide]
    · cases hv
    · cases hv
      exact hp.2
    · cases hv

/-! ### Elements of sanitized nodes -/

mutual

/-- What holds of all elements that are not blocked, with their sanitized properties, holds of all
elements of the sanitized tree. -/
theorem allElements_sanitizeNode? {P : String → List (String × String) → Prop}
    {Q : String → Option String → Props → List Html → Prop}
    (h : ∀ tag attrs key kids, P tag attrs → Hazard.isBlocked tag = false →
      Q tag key (sanitizeAttributes attrs) kids) (key : String) (i : Nat) :
    (n : RawNode) → RawNode.AllElements P [n] →
      Html.AllElements Q (sanitizeNode? key i n).toList
  | .text s, _ => Html.allElements_text
  | .element tag attrs kids, H => by
      rw [RawNode.allElements_element] at H
      rw [sanitizeNode?]
      cases hb : Hazard.isBlocked tag with
      | true => exact Html.allElements_nil
      | false =>
        exact Html.allElements_element.2
          ⟨h _ _ _ _ H.1 hb, allElements_sanitizeNodes h _ 0 kids H.2⟩

theorem allElements_sanitizeNodes {P : String → List (String × String) → Prop}
    {Q : String → Option String → Props → List Html → Prop}
    (h : ∀ tag attrs key kids, P tag attrs → Hazard.isBlocked tag = false →
      Q tag key (sanitizeAttributes attrs) kids) (key : String) (i : Nat) :
    (ns : List RawNode) → RawNode.AllElements P ns → Html.AllElements Q (sanitizeNodes key i ns)
  | [], _ => Html.allElements_nil
  | n :: rest, H => by
      rw [RawNode.allElements_cons] at H
      rw [sanitizeNodes, Html.allElements_append]
      exact ⟨allElements_sanitizeNode? h key i n H.1, allElements_sanitizeNodes h key (i + 1) rest H.2⟩

end

/-- The elements of sanitized raw HTML have tags as they are read. -/
theorem hasSmallTags_sanitize (source key : String) : Html.HasSmallTags (sanitize source key) := by
  refine allElements_sanitizeNodes (P := fun tag _ => isSmallName tag.toList = true)
    (fun _ _ _ _ h _ => h) key 0 _ (allElements_fragment fun name attrs selfClosing h => ?_)
  rw [String.toList_ofList]
  exact isSmallName_of_startTag h

/-- What is written for a property of a sanitized element is kept when it is read again. -/
theorem passes_readBack {attrs : List (String × String)} {a : String × String}
    (h : a ∈ Html.attributes (sanitizeAttributes attrs)) :
    Passes (readBack a).1 (readBack a).2 := by
  obtain ⟨e, he, ha⟩ := List.mem_filterMap.1 h
  obtain ⟨name, value, -, hp, hprop⟩ := exists_of_mem_sanitizeAttributes he
  obtain ⟨written, v⟩ := a
  obtain ⟨-, rfl, hv⟩ := Html.attribute?_eq_some_iff.1 ha
  suffices hs : Passes (Html.attributeName e.1) v from hs.lowered
  by_cases hc : e.1 = "className"
  · rw [hc]
    exact Hazard.passes_of_isUrlAttribute (by decide) (by decide)
  by_cases hf : e.1 = "htmlFor"
  · rw [hf]
    exact Hazard.passes_of_isUrlAttribute (by decide) (by decide)
  rw [Html.attributeName, if_neg hc, if_neg hf]
  rcases property?_cases hprop with h | h | ⟨s, rfl⟩ | rfl | rfl
  · exact absurd h hc
  · exact absurd h hf
  · change Passes "style" v
    exact Hazard.passes_of_isUrlAttribute (by decide) (by decide)
  · cases hv
    exact hp
  · cases hv
    exact hp.empty

/-- **Sanitized raw HTML stays free of hazards.** So are its elements, and so are the elements
that are read from its markup. -/
theorem sanitize_free (source key : String) :
    Html.AllElements (fun tag _ props _ => Hazard.FreeProps tag props) (sanitize source key) ∧
      RawNode.AllElements Hazard.Free
        (fragment (Html.fragment none (sanitize source key)).markup) := by
  constructor
  · exact allElements_sanitizeNodes (P := fun _ _ => True)
      (fun tag attrs _ _ _ hb => freeProps_sanitizeAttributes hb attrs) key 0 _
      fun _ _ _ _ => trivial
  · have hread : Html.AllElements (fun tag _ props _ =>
        Hazard.Free tag ((Html.attributes props).map readBack)) (sanitize source key) := by
      refine allElements_sanitizeNodes (P := fun _ _ => True) (fun tag attrs _ _ _ hb => ?_) key 0 _
        fun _ _ _ _ => trivial
      refine ⟨(freeProps_sanitizeAttributes hb attrs).tag_allowed, fun b hm => ?_, fun b hm => ?_⟩
      all_goals obtain ⟨a, ha, rfl⟩ := List.mem_map.1 hm
      · exact (passes_readBack ha).1
      · exact (passes_readBack ha).2
    refine allElements_fragment fun name text selfClosing hm => ?_
    rw [Html.markup, String.toList_ofList, Html.chars] at hm
    obtain ⟨tag, k, props, kids, he, rfl, rfl⟩ :=
      Html.exists_element_of_startTag (hasSmallTags_sanitize source key) hm
    rw [String.ofList_toList,
      attributeList_attributeChars fun a ha => Html.isAttributeName_of_mem_attributes ha]
    exact hread tag k props kids he

end RawHtml

end DocMarkup
