import DocMarkup.Proofs.RawHtml.Outline

/-!
# The elements of written markup

The elements that are read from the markup of output trees, in the order in which they start: each
element of the trees with its attributes as they are read, but for those inside void elements, which
are not written. This holds of all trees, however deep and with whatever in void elements; only
where an element ends may be read differently.

## Main definitions

* `RawHtml.elementsOf` : the elements of raw HTML in order, each with its tag and attributes.
* `Html.writtenElements` : the elements that are written for a tree.

## Main results

* `Html.elementsOf_fragment_markup` : the elements that are read are those that are written.
-/

namespace DocMarkup

namespace RawHtml

/-- The element that starts at an item, with its tag and attributes. -/
def Item.element? : Item → Option (String × List (String × String))
  | .element tag attributes => some (tag, attributes)
  | .text _ => none

/-- The elements of raw HTML in the order in which they start, each with its tag and attributes. -/
def elementsOf (ns : List RawNode) : List (String × List (String × String)) :=
  (RawNode.outlineAll ns).filterMap Item.element?

theorem elementsOf_append (ns ms : List RawNode) :
    elementsOf (ns ++ ms) = elementsOf ns ++ elementsOf ms := by
  rw [elementsOf, RawNode.outlineAll_append, List.filterMap_append]
  rfl

theorem elementsOf_element (tag : String) (attrs : List (String × String)) (kids : List RawNode) :
    elementsOf [.element tag attrs kids] = (tag, attrs) :: elementsOf kids := by
  rw [elementsOf, RawNode.outlineAll_singleton, RawNode.outline]
  rfl

/-! ### Elements and texts that meet -/

theorem filterMap_before (i : Item) (is : List Item) :
    (i.before is).filterMap Item.element? = (i :: is).filterMap Item.element? := by
  unfold Item.before
  split
  · rfl
  · rfl

/-- Making texts one changes no elements. -/
theorem filterMap_joined (is : List Item) :
    (joined is).filterMap Item.element? = is.filterMap Item.element? := by
  induction is with
  | nil => rfl
  | cons i is ih =>
    change (i.before (joined is)).filterMap Item.element? = _
    rw [filterMap_before, List.filterMap_cons, List.filterMap_cons, ih]

theorem elementsOf_fragment (s : String) :
    elementsOf (fragment s) = ((tokens s.toList).flatMap Token.outline).filterMap Item.element? := by
  have h := congrArg (List.filterMap Item.element?) (readAs_fragment s [])
  rwa [List.append_nil, List.append_nil, filterMap_joined, filterMap_joined] at h

theorem filterMap_outline_prependText (s : List Char) (ts : List Token) :
    ((prependText s ts).flatMap Token.outline).filterMap Item.element? =
      (ts.flatMap Token.outline).filterMap Item.element? := by
  unfold prependText
  split
  · rfl
  · split
    · rfl
    · rfl

/-- Joining texts changes no elements. -/
theorem filterMap_outline_joinTexts (ts : List Token) :
    ((joinTexts ts).flatMap Token.outline).filterMap Item.element? =
      (ts.flatMap Token.outline).filterMap Item.element? := by
  induction ts with
  | nil => rfl
  | cons t ts ih =>
    cases t with
    | text s =>
      rw [joinTexts, filterMap_outline_prependText, ih]
      rfl
    | _ => simp only [joinTexts, List.flatMap_cons, List.filterMap_append, ih]

end RawHtml

namespace Html

open RawHtml

mutual

/-- The elements that are written for a tree in order, each with its tag and with its attributes as
they are read. -/
def writtenElements : Html → List (String × List (String × String))
  | text _ => []
  | fragment _ kids => writtenElementsAll kids
  | element tag _ props kids =>
    (tag, readProperties props) :: if isVoid tag then [] else writtenElementsAll kids

/-- The elements that are written for trees side by side. -/
def writtenElementsAll : List Html → List (String × List (String × String))
  | [] => []
  | h :: rest => h.writtenElements ++ writtenElementsAll rest

end

theorem writtenElementsAll_append (hs hs' : List Html) :
    writtenElementsAll (hs ++ hs') = writtenElementsAll hs ++ writtenElementsAll hs' := by
  induction hs with
  | nil => rfl
  | cons h hs ih =>
    rw [List.cons_append, writtenElementsAll, writtenElementsAll, ih, List.append_assoc]

mutual

theorem filterMap_outline_tokens : (h : Html) →
    (h.tokens.flatMap Token.outline).filterMap Item.element? = h.writtenElements
  | text s => rfl
  | fragment _ kids => by
      rw [tokens, writtenElements, filterMap_outline_tokensAll kids]
  | element tag key props kids => by
      have hattrs : attributeList ((attributes props).flatMap attributeChars) =
          readProperties props := by
        rw [attributeList_attributeChars fun a ha => isAttributeName_of_mem_attributes ha,
          map_readBack_attributes]
      rw [tokens, writtenElements, List.flatMap_cons, Token.outline, String.ofList_toList, hattrs]
      cases isVoid tag with
      | true => rfl
      | false =>
        rw [if_neg Bool.false_ne_true, if_neg Bool.false_ne_true, List.flatMap_append,
          List.singleton_append, List.filterMap_cons, List.filterMap_append,
          filterMap_outline_tokensAll kids]
        exact congrArg _ (List.append_nil _)

theorem filterMap_outline_tokensAll : (hs : List Html) →
    ((tokensAll hs).flatMap Token.outline).filterMap Item.element? = writtenElementsAll hs
  | [] => rfl
  | h :: rest => by
      rw [tokensAll, writtenElementsAll, List.flatMap_append, List.filterMap_append,
        filterMap_outline_tokens h, filterMap_outline_tokensAll rest]

end

/-- **The elements that are read from the markup** of trees are those that are written for them. -/
theorem elementsOf_fragment_markup {hs : List Html} (tags : HasSmallTags hs) :
    elementsOf (RawHtml.fragment (Html.fragment none hs).markup) = writtenElementsAll hs := by
  rw [elementsOf_fragment, markup, String.toList_ofList, chars, tokens_charsAll tags,
    filterMap_outline_joinTexts, filterMap_outline_tokensAll]

theorem markup_fragment_singleton (h : Html) : (Html.fragment none [h]).markup = h.markup := by
  rw [markup, markup, chars, charsAll, charsAll, List.append_nil]

/-- The root of a tree with its attributes as they are read, if it is an element. -/
def readElement? : Html → Option (String × List (String × String))
  | element tag _ props _ => some (tag, readProperties props)
  | text _ | fragment .. => none

mutual

theorem writtenElements_subset : (h : Html) → h.writtenElements ⊆ h.subtrees.filterMap readElement?
  | text _ => List.nil_subset _
  | fragment _ kids => by
      rw [writtenElements, subtrees, List.filterMap_cons]
      exact writtenElementsAll_subset kids
  | element tag key props kids => by
      rw [writtenElements, subtrees, List.filterMap_cons]
      refine List.cons_subset_cons _ ?_
      split
      · exact List.nil_subset _
      · exact writtenElementsAll_subset kids

/-- What is written are elements of the trees. -/
theorem writtenElementsAll_subset :
    (hs : List Html) → writtenElementsAll hs ⊆ (subtreesAll hs).filterMap readElement?
  | [] => List.nil_subset _
  | h :: rest => by
      rw [writtenElementsAll, subtreesAll, List.filterMap_append]
      exact List.append_subset.2
        ⟨List.subset_append_of_subset_left _ (writtenElements_subset h),
          List.subset_append_of_subset_right _ (writtenElementsAll_subset rest)⟩

end

mutual

theorem writtenElements_eq_filterMap :
    (h : Html) → HasEmptyVoids [h] → h.writtenElements = h.subtrees.filterMap readElement?
  | text _, _ => rfl
  | fragment _ kids, H => by
      rw [writtenElements, writtenElementsAll_eq_filterMap kids (allElements_fragment.1 H)]
      rfl
  | element tag key props kids, H => by
      obtain ⟨hvoid, hkids⟩ := allElements_element.1 H
      rw [writtenElements, subtrees, List.filterMap_cons, writtenElementsAll_eq_filterMap kids hkids]
      split
      · rename_i h
        rw [hvoid h]
        rfl
      · rfl

/-- Where void elements are empty, all elements are written. -/
theorem writtenElementsAll_eq_filterMap :
    (hs : List Html) → HasEmptyVoids hs →
      writtenElementsAll hs = (subtreesAll hs).filterMap readElement?
  | [], _ => rfl
  | h :: rest, H => by
      rw [writtenElementsAll, subtreesAll, List.filterMap_append,
        writtenElements_eq_filterMap h (allElements_cons.1 H).1,
        writtenElementsAll_eq_filterMap rest (allElements_cons.1 H).2]

end

/-- Where void elements are empty, what is written are the elements with their attributes as they
are read. -/
theorem mem_writtenElementsAll_iff {hs : List Html} (H : HasEmptyVoids hs) {tag : String}
    {attrs : List (String × String)} :
    (tag, attrs) ∈ writtenElementsAll hs ↔
      ∃ key props kids, .element tag key props kids ∈ subtreesAll hs ∧
        attrs = readProperties props := by
  rw [writtenElementsAll_eq_filterMap hs H, List.mem_filterMap]
  constructor
  · rintro ⟨h, hm, he⟩
    cases h with
    | element tag key props kids =>
      cases he
      exact ⟨key, props, kids, hm, rfl⟩
    | _ => cases he
  · rintro ⟨key, props, kids, hm, rfl⟩
    exact ⟨_, hm, rfl⟩

end Html

end DocMarkup
