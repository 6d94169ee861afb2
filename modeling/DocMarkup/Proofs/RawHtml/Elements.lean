import DocMarkup.Proofs.RawHtml.Growth
import DocMarkup.Proofs.RawHtml.TokenText

/-!
# The elements of raw HTML come from its start tags

Building a tree from tokens makes no element up: each element, however deep and however it was
closed, has the name and the attributes of a start tag among the tokens. So what holds of all start
tags of a text holds of all elements of its tree.

## Main definitions

* `RawHtml.RawNode.AllElements` : a property of all elements in nodes.

## Main results

* `RawHtml.allElements_fragment` : what holds of all start tags holds of all elements.
* `RawHtml.isSmallName_of_startTag` : the names of start tags.
-/

namespace DocMarkup.RawHtml

namespace RawNode

mutual

/-- The nodes in a node: the node itself, then those in its children in order. -/
def subtrees : RawNode → List RawNode
  | text s => [text s]
  | element tag attrs kids => element tag attrs kids :: subtreesAll kids

/-- The nodes in nodes side by side, in order. -/
def subtreesAll : List RawNode → List RawNode
  | [] => []
  | n :: rest => n.subtrees ++ subtreesAll rest

end

theorem subtreesAll_append (ns ms : List RawNode) :
    subtreesAll (ns ++ ms) = subtreesAll ns ++ subtreesAll ms := by
  induction ns with
  | nil => rfl
  | cons n ns ih => rw [List.cons_append, subtreesAll, ih, subtreesAll, List.append_assoc]

/-- All elements in nodes side by side have a property of their tag and attributes. -/
def AllElements (P : String → List (String × String) → Prop) (ns : List RawNode) : Prop :=
  ∀ tag attrs kids, .element tag attrs kids ∈ subtreesAll ns → P tag attrs

variable {P : String → List (String × String) → Prop}

theorem allElements_nil : AllElements P [] := fun _ _ _ hm => absurd hm List.not_mem_nil

theorem allElements_append {ns ms : List RawNode} :
    AllElements P (ns ++ ms) ↔ AllElements P ns ∧ AllElements P ms := by
  simp only [AllElements, subtreesAll_append, List.mem_append, or_imp, forall_and]

theorem allElements_cons {n : RawNode} {ns : List RawNode} :
    AllElements P (n :: ns) ↔ AllElements P [n] ∧ AllElements P ns :=
  @allElements_append P [n] ns

theorem allElements_text {s : String} : AllElements P [.text s] := fun _ _ _ hm => by
  simp [subtreesAll, subtrees] at hm

theorem allElements_element {tag : String} {attrs : List (String × String)}
    {kids : List RawNode} :
    AllElements P [.element tag attrs kids] ↔ P tag attrs ∧ AllElements P kids := by
  simp only [AllElements, subtreesAll, subtrees, List.append_nil, List.mem_cons, or_imp,
    forall_and]
  refine and_congr ⟨fun H => H tag attrs kids rfl, fun H _ _ _ he => ?_⟩ Iff.rfl
  cases he
  exact H

end RawNode

open RawNode (AllElements)

variable {P : String → List (String × String) → Prop}

theorem allElements_appendText {ns : List RawNode} (h : AllElements P ns) (s : String) :
    AllElements P (appendText ns s) := by
  fun_induction appendText ns s with
  | case1 => exact RawNode.allElements_text
  | case2 => exact RawNode.allElements_text
  | case3 n ns _ ih =>
    rw [RawNode.allElements_cons] at h ⊢
    exact ⟨h.1, ih h.2⟩

theorem grows_allElements (P : String → List (String × String) → Prop) :
    Grows (fun _ => True) P fun _ => AllElements P where
  nil _ := RawNode.allElements_nil
  text _ hns := allElements_appendText hns _
  empty _ hP hns := RawNode.allElements_append.2
    ⟨hns, RawNode.allElements_element.2 ⟨hP, RawNode.allElements_nil⟩⟩
  element _ _ hP hkids hns := RawNode.allElements_append.2
    ⟨hns, RawNode.allElements_element.2 ⟨hP, hkids⟩⟩

/-- **What holds of all start tags of a text holds of all elements of its tree.** -/
theorem allElements_fragment {s : String}
    (h : ∀ name attrs selfClosing, .startTag name attrs selfClosing ∈ tokens s.toList →
      P (String.ofList name) (attributeList attrs)) : AllElements P (fragment s) :=
  (grows_allElements P).fragment fun t ht => by
    cases t with
    | startTag name attrs selfClosing => exact h name attrs selfClosing ht
    | text | lessThan | endTag => trivial

/-! ### Names of start tags -/

/-- The name of a start tag whose inside starts with a letter. -/
theorem isSmallName_of_inside {c : Char} (hc : c.isAlpha = true) (inside : List Char) :
    isSmallName (((c :: inside).takeWhile isNameChar).map Char.toLower) = true := by
  have hsmall (d : Char) (hd : isNameChar d = true) :
      (d.toLower.isLower || d.toLower.isDigit || d.toLower = '_' || d.toLower = ':' ||
        d.toLower = '-') = true := by
    have hn := isNameChar_toLower hd
    have hu := Text.isUpper_toLower d
    simp only [isNameChar, Char.isAlphanum, Text.isAlpha_eq, hu, Bool.false_or] at hn
    exact hn
  have ha := Text.isAlpha_toLower hc
  simp only [Text.isAlpha_eq, Text.isUpper_toLower, Bool.false_or] at ha
  rw [List.takeWhile_cons_of_pos (isNameChar_of_isAlpha hc), List.map_cons, isSmallName, ha,
    Bool.true_and, List.all_eq_true]
  intro d hd
  obtain ⟨e, he, rfl⟩ := List.mem_map.1 hd
  exact hsmall e (List.mem_takeWhile_imp he)

theorem isSmallName_of_startTag_eq {c : Char} (hc : c.isAlpha = true) {inside name attrs : List Char}
    {selfClosing : Bool} (h : startTag (c :: inside) = .startTag name attrs selfClosing) :
    isSmallName name = true := by
  simp only [startTag] at h
  split at h <;> cases h <;> exact isSmallName_of_inside hc inside

/-- A tag ends at the first `>`. -/
theorem tag?_eq_some_iff {make : List Char → Token} {s rest : List Char} {t : Token} :
    tag? make s = some (t, rest) ↔
      ∃ inside, s = inside ++ '>' :: rest ∧ '>' ∉ inside ∧ t = make inside := by
  simp only [tag?, Option.map_eq_some_iff, Prod.mk.injEq, Prod.exists, Text.cut?_eq_some_iff]
  constructor
  · rintro ⟨a, b, ⟨hs, ha⟩, rfl, rfl⟩
    exact ⟨a, hs, ha, rfl⟩
  · rintro ⟨a, hs, ha, rfl⟩
    exact ⟨a, rest, ⟨hs, ha⟩, rfl, rfl⟩

/-- What a `<` begins is a start tag only with a small name. -/
theorem isSmallName_of_markup? {s rest name attrs : List Char} {selfClosing : Bool}
    (h : markup? s = some (some (.startTag name attrs selfClosing), rest)) :
    isSmallName name = true := by
  unfold markup? at h
  split at h
  · obtain ⟨r, -, he⟩ := Option.map_eq_some_iff.1 h
    cases he
  · split at h
    · obtain ⟨⟨t, r⟩, ht, he⟩ := Option.map_eq_some_iff.1 h
      obtain ⟨inside, -, -, rfl⟩ := tag?_eq_some_iff.1 ht
      simp only [endTag, Prod.mk.injEq, Option.some.injEq] at he
      obtain ⟨he, -⟩ := he
      split at he <;> cases he
    · cases h
  · split at h
    · rename_i c s _ _ hc
      obtain ⟨⟨t, r⟩, ht, he⟩ := Option.map_eq_some_iff.1 h
      obtain ⟨inside, hs, -, rfl⟩ := tag?_eq_some_iff.1 ht
      simp only [Prod.mk.injEq, Option.some.injEq] at he
      cases inside with
      | nil =>
        rw [List.nil_append, List.cons.injEq] at hs
        exact absurd (hs.1 ▸ hc) (by decide)
      | cons d inside =>
        rw [List.cons_append, List.cons.injEq] at hs
        exact isSmallName_of_startTag_eq (hs.1 ▸ hc) he.1
    · cases h
  · cases h

/-- **The names of start tags are small names.** -/
theorem isSmallName_of_startTag {s name attrs : List Char} {selfClosing : Bool}
    (h : .startTag name attrs selfClosing ∈ tokens s) : isSmallName name = true := by
  fun_induction tokens s with
  | case1 => exact absurd h List.not_mem_nil
  | case2 c rest t ht ih =>
    rcases List.mem_cons.1 h with rfl | h
    · unfold piece at ht
      split at ht
      · cases hm : markup? rest with
        | none =>
          rw [hm] at ht
          cases ht
        | some p =>
          rw [hm] at ht
          exact isSmallName_of_markup? (hm.trans (congrArg some (Prod.ext ht rfl)))
      · cases ht
    · exact ih h
  | case3 c rest ht ih => exact ih h

end DocMarkup.RawHtml
