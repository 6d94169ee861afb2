import DocMarkup.Proofs.Markup.Subtrees
import DocMarkup.Proofs.RawHtml.TokenText

/-!
# The tokens of written markup

The markup of an output tree is the writing of a list of tokens, which can be read off the tree: a
text for each text, a start tag and an end tag for each element, and a closed start tag alone for
a void one. Cutting the markup into tokens gives this list back, up to texts that meet.

## Main definitions

* `Html.tokens`, `Html.tokensAll` : the tokens that a tree is written as.
* `Html.HasSmallTags` : all elements have tags as they are read.

## Main results

* `Html.tokens_charsAll` : the tokens of the markup.
* `Html.exists_element_of_startTag` : each start tag in the markup comes from an element.
-/

namespace DocMarkup.Html

open RawHtml (Token isSmallName joinTexts)

mutual

/-- The tokens that a tree is written as. -/
def tokens : Html → List Token
  | text s => [.text (escapeChars s.toList)]
  | fragment _ kids => tokensAll kids
  | element tag _ props kids =>
    .startTag tag.toList ((attributes props).flatMap attributeChars) (isVoid tag) ::
      if isVoid tag then [] else tokensAll kids ++ [.endTag tag.toList]

/-- The tokens that trees side by side are written as. -/
def tokensAll : List Html → List Token
  | [] => []
  | h :: rest => h.tokens ++ tokensAll rest

end

theorem charsAll_append (hs hs' : List Html) :
    charsAll (hs ++ hs') = charsAll hs ++ charsAll hs' := by
  induction hs with
  | nil => rfl
  | cons h hs ih => rw [List.cons_append, charsAll, charsAll, ih, List.append_assoc]

mutual

theorem chars_eq_flatMap_tokens : (h : Html) → h.chars = h.tokens.flatMap Token.chars
  | text s => by simp [chars, tokens, Token.chars]
  | fragment _ kids => by rw [chars, tokens, charsAll_eq_flatMap_tokensAll kids]
  | element tag key props kids => by
      rw [chars, tokens, charsAll_eq_flatMap_tokensAll kids]
      cases isVoid tag <;> simp [Token.chars]

theorem charsAll_eq_flatMap_tokensAll :
    (hs : List Html) → charsAll hs = (tokensAll hs).flatMap Token.chars
  | [] => rfl
  | h :: rest => by
      rw [charsAll, tokensAll, List.flatMap_append, chars_eq_flatMap_tokens h,
        charsAll_eq_flatMap_tokensAll rest]

end

/-- All elements have tags as they are read: small names. -/
abbrev HasSmallTags (hs : List Html) : Prop :=
  AllElements (fun tag _ _ _ => isSmallName tag.toList = true) hs

mutual

theorem isWritten_of_mem_tokens :
    (h : Html) → HasSmallTags [h] → ∀ t ∈ h.tokens, t.IsWritten
  | text s, _, t, ht => by
      rw [tokens, List.mem_singleton] at ht
      exact ht ▸ .text s.toList
  | fragment _ kids, H, t, ht => by
      rw [tokens] at ht
      exact isWritten_of_mem_tokensAll kids (allElements_fragment.1 H) t ht
  | element tag key props kids, H, t, ht => by
      rw [tokens] at ht
      rcases List.mem_cons.1 ht with rfl | ht
      · exact .startTag _ (allElements_element.1 H).1 fun a ha => isAttributeName_of_mem_attributes ha
      · split at ht
        · cases ht
        · rcases List.mem_append.1 ht with ht | ht
          · exact isWritten_of_mem_tokensAll kids (allElements_element.1 H).2 t ht
          · rw [List.mem_singleton.1 ht]
            exact .endTag (allElements_element.1 H).1

theorem isWritten_of_mem_tokensAll :
    (hs : List Html) → HasSmallTags hs → ∀ t ∈ tokensAll hs, t.IsWritten
  | [], _, _, ht => absurd ht List.not_mem_nil
  | h :: rest, H, t, ht => by
      rw [tokensAll] at ht
      rcases List.mem_append.1 ht with ht | ht
      · exact isWritten_of_mem_tokens h (allElements_cons.1 H).1 t ht
      · exact isWritten_of_mem_tokensAll rest (allElements_cons.1 H).2 t ht

end

/-- **The tokens of the markup** of trees are those that the trees are written as. -/
theorem tokens_charsAll {hs : List Html} (H : HasSmallTags hs) :
    RawHtml.tokens (charsAll hs) = joinTexts (tokensAll hs) := by
  rw [charsAll_eq_flatMap_tokensAll]
  exact RawHtml.tokens_flatMap_chars (isWritten_of_mem_tokensAll hs H)

mutual

theorem exists_element_of_mem_tokens {name attrs : List Char} {selfClosing : Bool} :
    (h : Html) → .startTag name attrs selfClosing ∈ h.tokens →
      ∃ tag key props kids, .element tag key props kids ∈ h.subtrees ∧ name = tag.toList ∧
        attrs = (attributes props).flatMap attributeChars
  | text s, ht => by simp [tokens] at ht
  | fragment key kids, ht => by
      rw [tokens] at ht
      obtain ⟨tag, k, props, ks, hm, he⟩ := exists_element_of_mem_tokensAll kids ht
      exact ⟨tag, k, props, ks, List.mem_cons_of_mem _ hm, he⟩
  | element tag key props kids, ht => by
      rw [tokens] at ht
      rcases List.mem_cons.1 ht with ht | ht
      · cases ht
        exact ⟨tag, key, props, kids, mem_subtrees_self _, rfl, rfl⟩
      · split at ht
        · cases ht
        · rcases List.mem_append.1 ht with ht | ht
          · obtain ⟨tag', k, props', ks, hm, he⟩ := exists_element_of_mem_tokensAll kids ht
            exact ⟨tag', k, props', ks, List.mem_cons_of_mem _ hm, he⟩
          · cases List.mem_singleton.1 ht

theorem exists_element_of_mem_tokensAll {name attrs : List Char} {selfClosing : Bool} :
    (hs : List Html) → .startTag name attrs selfClosing ∈ tokensAll hs →
      ∃ tag key props kids, .element tag key props kids ∈ subtreesAll hs ∧ name = tag.toList ∧
        attrs = (attributes props).flatMap attributeChars
  | [], ht => absurd ht List.not_mem_nil
  | h :: rest, ht => by
      rw [tokensAll] at ht
      rcases List.mem_append.1 ht with ht | ht
      · obtain ⟨tag, k, props, ks, hm, he⟩ := exists_element_of_mem_tokens h ht
        exact ⟨tag, k, props, ks, List.mem_append_left _ hm, he⟩
      · obtain ⟨tag, k, props, ks, hm, he⟩ := exists_element_of_mem_tokensAll rest ht
        exact ⟨tag, k, props, ks, List.mem_append_right _ hm, he⟩

end

/-- Each start tag in the markup of trees comes from an element in them. -/
theorem exists_element_of_startTag {hs : List Html} (H : HasSmallTags hs)
    {name attrs : List Char} {selfClosing : Bool}
    (h : .startTag name attrs selfClosing ∈ RawHtml.tokens (charsAll hs)) :
    ∃ tag key props kids, .element tag key props kids ∈ subtreesAll hs ∧ name = tag.toList ∧
      attrs = (attributes props).flatMap attributeChars := by
  rw [tokens_charsAll H] at h
  exact exists_element_of_mem_tokensAll hs (RawHtml.mem_joinTexts_startTag h)

end DocMarkup.Html
