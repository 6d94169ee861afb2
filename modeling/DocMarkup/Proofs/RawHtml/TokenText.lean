import DocMarkup.Proofs.RawHtml.AttributeText
import DocMarkup.Proofs.Text.Pieces

/-!
# Written tokens are read back

A list of tokens written one after the other and cut into tokens again. Texts that meet become
one and an empty text vanishes; beyond that the tokens are the same. This holds of tokens as the
writer of markup makes them: escaped texts, start tags with written attributes, and end tags.

## Main definitions

* `RawHtml.isSmallName` : names of tags as they are read, `[a-z][a-z0-9_:-]*`.
* `RawHtml.Token.chars` : the characters of a token.
* `RawHtml.Token.IsWritten` : the tokens that the writer makes.
* `RawHtml.joinTexts` : tokens with the texts that meet made one.

## Main results

* `RawHtml.tokens_flatMap_chars` : written tokens are read back.
-/

namespace DocMarkup.RawHtml

open Html (attributeChars escapeChars isAttributeName)

/-- Names of tags as they are read: a small letter, then small letters, digits, `_`, `:` and
`-`. -/
def isSmallName (s : List Char) : Bool :=
  match s with
  | [] => false
  | c :: rest =>
    c.isLower && rest.all fun d => d.isLower || d.isDigit || d = '_' || d = ':' || d = '-'

/-- Characters of small names are characters of names, and are not made smaller. -/
theorem isNameChar_and_toLower_of_small {c : Char}
    (h : (c.isLower || c.isDigit || c = '_' || c = ':' || c = '-') = true) :
    isNameChar c = true ∧ c.toLower = c := by
  simp only [Bool.or_eq_true, decide_eq_true_eq] at h
  rcases h with (((h | h) | rfl) | rfl) | rfl
  · refine ⟨isNameChar_of_isAlpha (by simp [Text.isAlpha_eq, h]), Text.toLower_eq_self ?_⟩
    rw [Bool.eq_false_iff, ne_eq, Text.isUpper_iff]
    rw [Text.isLower_iff] at h
    omega
  · refine ⟨by simp [isNameChar, Char.isAlphanum, h], Text.toLower_eq_self ?_⟩
    rw [Bool.eq_false_iff, ne_eq, Text.isUpper_iff]
    rw [Char.isDigit_iff_toNat] at h
    have h57 : c.toNat ≤ 57 := h.2
    omega
  all_goals decide

/-- A small name starts with a letter. -/
theorem isAlpha_of_isSmallName {c : Char} {cs : List Char} (h : isSmallName (c :: cs) = true) :
    c.isAlpha = true := by
  simp only [isSmallName, Bool.and_eq_true] at h
  simp [Text.isAlpha_eq, h.1]

theorem isNameChar_and_toLower_of_isSmallName {s : List Char} (h : isSmallName s = true) :
    ∀ c ∈ s, isNameChar c = true ∧ c.toLower = c := by
  cases s with
  | nil => simp
  | cons c cs =>
    simp only [isSmallName, Bool.and_eq_true, List.all_eq_true] at h
    intro d hd
    rcases List.mem_cons.1 hd with rfl | hd
    · exact isNameChar_and_toLower_of_small (by simp [h.1])
    · exact isNameChar_and_toLower_of_small (h.2 d hd)

theorem map_toLower_of_isSmallName {s : List Char} (h : isSmallName s = true) :
    s.map Char.toLower = s := by
  rw [List.map_congr_left fun c hc => (isNameChar_and_toLower_of_isSmallName h c hc).2]
  exact List.map_id s

namespace Token

/-- The characters of a token. -/
def chars : Token → List Char
  | text s => s
  | lessThan => ['<']
  | startTag name attributes selfClosing =>
    '<' :: (name ++ (attributes ++ if selfClosing then ['/', '>'] else ['>']))
  | endTag name => '<' :: '/' :: (name ++ ['>'])

/-- The tokens that the writer of markup makes. -/
inductive IsWritten : Token → Prop
  | text (s : List Char) : IsWritten (.text (escapeChars s))
  | startTag {name : List Char} {attrs : List (String × String)} (selfClosing : Bool)
      (hname : isSmallName name = true) (hattrs : ∀ a ∈ attrs, isAttributeName a.1 = true) :
      IsWritten (.startTag name (attrs.flatMap attributeChars) selfClosing)
  | endTag {name : List Char} (hname : isSmallName name = true) : IsWritten (.endTag name)

end Token

/-- A text in front of tokens, which becomes part of a text at their start. -/
def prependText (s : List Char) : List Token → List Token
  | .text t :: rest => .text (s ++ t) :: rest
  | ts => if s = [] then ts else .text s :: ts

/-- Tokens with the texts that meet made one and the empty ones dropped. -/
def joinTexts : List Token → List Token
  | [] => []
  | .text s :: rest => prependText s (joinTexts rest)
  | t :: rest => t :: joinTexts rest

/-! ### One tag -/

/-- What attributes write starts with a blank and ends with a quotation mark, if it is not
empty. -/
theorem flatMap_attributeChars_cases (attrs : List (String × String)) :
    attrs.flatMap attributeChars = [] ∨
      ∃ s, attrs.flatMap attributeChars = ' ' :: (s ++ ['"']) := by
  induction attrs with
  | nil => exact Or.inl rfl
  | cons a attrs ih =>
    obtain ⟨s, hs⟩ := attributeChars_eq_append a
    rw [List.flatMap_cons, hs]
    rcases ih with h | ⟨t, h⟩ <;> rw [h]
    · exact Or.inr ⟨s, by simp⟩
    · exact Or.inr ⟨s ++ '"' :: ' ' :: t, by simp⟩

/-- The name of a tag, cut off the text of its attributes and what follows them. -/
theorem takeWhile_dropWhile_name {name : List Char} (hname : isSmallName name = true)
    (attrs : List (String × String)) {rest : List Char} (hrest : rest = [] ∨ rest = ['/']) :
    (name ++ (attrs.flatMap attributeChars ++ rest)).takeWhile isNameChar = name ∧
      (name ++ (attrs.flatMap attributeChars ++ rest)).dropWhile isNameChar =
        attrs.flatMap attributeChars ++ rest := by
  have hn : ∀ c ∈ name, isNameChar c = true := fun c hc =>
    (isNameChar_and_toLower_of_isSmallName hname c hc).1
  have hstop : ∀ c ∈ (attrs.flatMap attributeChars ++ rest).head?, isNameChar c = false := by
    rcases flatMap_attributeChars_cases attrs with h | ⟨s, h⟩ <;> rw [h]
    · rcases hrest with rfl | rfl
      · rintro c ⟨⟩
      · rintro c ⟨⟩
        decide
    · rintro c ⟨⟩
      decide
  exact ⟨Text.takeWhile_run hn hstop, Text.dropWhile_run hn hstop⟩

/-- The inside of a written start tag is read as that tag. -/
theorem startTag_inside {name : List Char} (hname : isSmallName name = true)
    (attrs : List (String × String)) (selfClosing : Bool) :
    startTag (name ++ (attrs.flatMap attributeChars ++ if selfClosing then ['/'] else [])) =
      .startTag name (attrs.flatMap attributeChars) selfClosing := by
  have hend : (if selfClosing then ['/'] else []) = [] ∨
      (if selfClosing then ['/'] else []) = ['/'] := by cases selfClosing <;> simp
  obtain ⟨ht, hd⟩ := takeWhile_dropWhile_name hname attrs hend
  unfold startTag
  simp only [ht, hd, map_toLower_of_isSmallName hname]
  cases selfClosing with
  | true =>
    have hr : (attrs.flatMap attributeChars ++ ['/']).reverse =
        '/' :: (attrs.flatMap attributeChars).reverse := by simp
    simp only [if_true, hr, List.dropWhile_cons_of_neg (show ¬ Text.isBlank '/' = true by decide),
      List.reverse_reverse]
  | false =>
    simp only [Bool.false_eq_true, if_false, List.append_nil]
    rcases flatMap_attributeChars_cases attrs with h | ⟨s, h⟩ <;> rw [h]
    · rfl
    · have hr : (' ' :: (s ++ ['"'])).reverse = '"' :: (' ' :: s).reverse := by simp
      simp only [hr, List.dropWhile_cons_of_neg (show ¬ Text.isBlank '"' = true by decide)]
      rfl

/-- The inside of a written end tag is read as that tag. -/
theorem endTag_inside {name : List Char} (hname : isSmallName name = true) :
    endTag name = .endTag name := by
  obtain ⟨ht, hd⟩ := takeWhile_dropWhile_name hname [] (Or.inl rfl)
  simp only [List.flatMap_nil, List.append_nil] at ht hd
  simp only [endTag, ht, hd, map_toLower_of_isSmallName hname]
  rfl

theorem not_mem_of_isSmallName {name : List Char} (hname : isSmallName name = true) :
    '>' ∉ name := fun h => by
  have hc := (isNameChar_and_toLower_of_isSmallName hname '>' h).1
  revert hc
  decide

theorem not_mem_flatMap_attributeChars {attrs : List (String × String)}
    (h : ∀ a ∈ attrs, isAttributeName a.1 = true) : '>' ∉ attrs.flatMap attributeChars := by
  intro hm
  obtain ⟨a, ha, hm⟩ := List.mem_flatMap.1 hm
  exact not_mem_attributeChars (h a ha) hm

/-! ### Pieces of a written list -/

theorem tokens_nil : tokens [] = [] := by
  rw [tokens]

/-- A piece that is a token is the first of the tokens. -/
theorem tokens_cons_of_piece {c : Char} {s rest : List Char} {t : Token}
    (h : piece c s = (some t, rest)) : tokens (c :: s) = t :: tokens rest := by
  rw [tokens, h]

/-- The letter at the start of a name begins neither a comment nor an end tag. -/
theorem markup?_cons_of_isAlpha {c : Char} (hc : c.isAlpha = true) (s : List Char) :
    markup? (c :: s) = (tag? startTag (c :: s)).map fun p => (some p.1, p.2) := by
  unfold markup?
  split
  · rename_i h
    cases h
    exact absurd hc (by decide)
  · rename_i h
    cases h
    exact absurd hc (by decide)
  · rename_i h
    cases h
    rw [if_pos hc]
  · rename_i h
    cases h

/-- A written start tag is read as one token, whatever follows it. -/
theorem tokens_startTag {name : List Char} (hname : isSmallName name = true)
    {attrs : List (String × String)} (hattrs : ∀ a ∈ attrs, isAttributeName a.1 = true)
    (selfClosing : Bool) (rest : List Char) :
    tokens ((Token.startTag name (attrs.flatMap attributeChars) selfClosing).chars ++ rest) =
      .startTag name (attrs.flatMap attributeChars) selfClosing :: tokens rest := by
  let inside := name ++ (attrs.flatMap attributeChars ++ if selfClosing then ['/'] else [])
  have hinside : '>' ∉ inside := by
    simp only [inside, List.mem_append, not_or]
    refine ⟨not_mem_of_isSmallName hname, not_mem_flatMap_attributeChars hattrs, ?_⟩
    cases selfClosing <;> decide
  have hchars : (Token.startTag name (attrs.flatMap attributeChars) selfClosing).chars ++ rest =
      '<' :: (inside ++ '>' :: rest) := by
    cases selfClosing <;> simp [Token.chars, inside]
  have hcut : Text.cut? '>' (inside ++ '>' :: rest) = some (inside, rest) :=
    Text.cut?_eq_some_iff.2 ⟨rfl, hinside⟩
  obtain ⟨c, cs, hc⟩ : ∃ c cs, name = c :: cs := by
    cases name with
    | nil => cases hname
    | cons c cs => exact ⟨c, cs, rfl⟩
  have hmarkup : markup? (inside ++ '>' :: rest) =
      some (some (startTag inside), rest) := by
    have hcons : inside ++ '>' :: rest = c :: (cs ++ ((attrs.flatMap attributeChars ++
        if selfClosing then ['/'] else []) ++ '>' :: rest)) := by
      simp [inside, hc]
    rw [hcons, markup?_cons_of_isAlpha (isAlpha_of_isSmallName (hc ▸ hname)), ← hcons, tag?, hcut]
    rfl
  rw [hchars]
  refine tokens_cons_of_piece ?_
  rw [piece, if_pos rfl, hmarkup, Option.getD_some, startTag_inside hname]

/-- A written end tag is read as one token, whatever follows it. -/
theorem tokens_endTag {name : List Char} (hname : isSmallName name = true) (rest : List Char) :
    tokens ((Token.endTag name).chars ++ rest) = .endTag name :: tokens rest := by
  have hchars : (Token.endTag name).chars ++ rest = '<' :: '/' :: (name ++ '>' :: rest) := by
    simp [Token.chars]
  have hcut : Text.cut? '>' (name ++ '>' :: rest) = some (name, rest) :=
    Text.cut?_eq_some_iff.2 ⟨rfl, not_mem_of_isSmallName hname⟩
  obtain ⟨c, cs, hc⟩ : ∃ c cs, name = c :: cs := by
    cases name with
    | nil => cases hname
    | cons c cs => exact ⟨c, cs, rfl⟩
  have hmarkup : markup? ('/' :: (name ++ '>' :: rest)) = some (some (endTag name), rest) := by
    rw [hc, List.cons_append, markup?, if_pos (isAlpha_of_isSmallName (hc ▸ hname)),
      ← List.cons_append, ← hc, tag?, hcut]
    rfl
  rw [hchars]
  refine tokens_cons_of_piece ?_
  rw [piece, if_pos rfl, hmarkup, Option.getD_some, endTag_inside hname]

/-! ### Texts that meet -/

/-- No text stands at the start of the tokens. -/
def StartsNoText (ts : List Token) : Prop := ∀ t rest, ts ≠ .text t :: rest

theorem prependText_nil (ts : List Token) : prependText [] ts = ts := by
  unfold prependText
  split <;> simp

theorem prependText_of_startsNoText {s : List Char} {ts : List Token} (hs : s ≠ [])
    (h : StartsNoText ts) : prependText s ts = .text s :: ts := by
  unfold prependText
  split
  · exact absurd rfl (h _ _)
  · exact if_neg hs

theorem prependText_prependText (s t : List Char) (ts : List Token) :
    prependText s (prependText t ts) = prependText (s ++ t) ts := by
  by_cases ht : t = []
  · rw [ht, prependText_nil, List.append_nil]
  by_cases h : StartsNoText ts
  · rw [prependText_of_startsNoText ht h, prependText_of_startsNoText (by simp [ht]) h]
    rfl
  · simp only [StartsNoText, ne_eq, Classical.not_forall, Classical.not_not] at h
    obtain ⟨u, rest, rfl⟩ := h
    simp only [prependText, List.append_assoc]

/-- A character that is no `<` becomes part of the text that starts after it, or a text of its
own. -/
theorem tokens_cons_of_ne {c : Char} (hc : c ≠ '<') {s : List Char}
    (hs : s.head? = some '<' → StartsNoText (tokens s)) :
    tokens (c :: s) = prependText [c] (tokens s) := by
  cases s with
  | nil =>
    have hpiece : piece c [] = (some (.text [c]), []) := by simp [piece, hc]
    rw [tokens_cons_of_piece hpiece, tokens_nil]
    rfl
  | cons d s =>
    by_cases hd : d = '<'
    · have hpiece : piece c (d :: s) = (some (.text [c]), d :: s) := by simp [piece, hc, hd]
      rw [prependText_of_startsNoText (List.cons_ne_nil _ _) (hs (by rw [hd]; rfl)),
        tokens_cons_of_piece hpiece]
    · have hlater : piece d s =
          (some (.text (d :: s.takeWhile (· ≠ '<'))), s.dropWhile (· ≠ '<')) := by
        simp [piece, hd]
      have hpiece : piece c (d :: s) =
          (some (.text (c :: d :: s.takeWhile (· ≠ '<'))), s.dropWhile (· ≠ '<')) := by
        simp [piece, hc, hd]
      rw [tokens_cons_of_piece hlater, tokens_cons_of_piece hpiece]
      rfl

/-- A text without `<` becomes part of the text that starts after it, or a text of its own. -/
theorem tokens_append_of_not_mem {s : List Char} (hs : '<' ∉ s) {rest : List Char}
    (hrest : rest.head? = some '<' → StartsNoText (tokens rest)) :
    tokens (s ++ rest) = prependText s (tokens rest) := by
  induction s with
  | nil => rw [prependText_nil, List.nil_append]
  | cons c s ih =>
    rw [List.mem_cons, not_or] at hs
    have hnext : (s ++ rest).head? = some '<' → StartsNoText (tokens (s ++ rest)) := by
      cases s with
      | nil => exact hrest
      | cons d s =>
        intro h
        rw [List.cons_append, List.head?_cons, Option.some.injEq] at h
        exact absurd (h ▸ List.mem_cons_self) hs.2
    rw [List.cons_append, tokens_cons_of_ne (Ne.symm hs.1) hnext, ih hs.2,
      prependText_prependText]
    rfl

theorem startsNoText_joinTexts {ts : List Token} (hts : ∀ t ∈ ts, t.IsWritten)
    (h : (ts.flatMap Token.chars).head? = some '<') : StartsNoText (joinTexts ts) := by
  induction ts with
  | nil => cases h
  | cons t ts ih =>
    cases hts t List.mem_cons_self with
    | text s =>
      by_cases hs : escapeChars s = []
      · rw [joinTexts, hs, prependText_nil]
        refine ih (fun t ht => hts t (List.mem_cons_of_mem _ ht)) ?_
        rwa [List.flatMap_cons, Token.chars, hs] at h
      · obtain ⟨c, cs, hc⟩ := List.exists_cons_of_ne_nil hs
        rw [List.flatMap_cons, Token.chars, hc, List.cons_append, List.head?_cons,
          Option.some.injEq] at h
        refine absurd ?_ (Html.not_mem_escapeChars (d := '<') (by simp) s)
        rw [hc, h]
        exact List.mem_cons_self
    | startTag selfClosing hname hattrs =>
      intro t rest he
      cases he
    | endTag hname =>
      intro t rest he
      cases he

/-- **Written tokens are read back**, up to texts that meet and empty texts. -/
theorem tokens_flatMap_chars {ts : List Token} (hts : ∀ t ∈ ts, t.IsWritten) :
    tokens (ts.flatMap Token.chars) = joinTexts ts := by
  induction ts with
  | nil => exact tokens_nil
  | cons t ts ih =>
    have hrest : ∀ t ∈ ts, t.IsWritten := fun u hu => hts u (List.mem_cons_of_mem t hu)
    rw [List.flatMap_cons]
    cases hts t List.mem_cons_self with
    | text s =>
      rw [joinTexts, ← ih hrest]
      refine tokens_append_of_not_mem (Html.not_mem_escapeChars (by simp) s) fun h => ?_
      rw [ih hrest]
      exact startsNoText_joinTexts hrest h
    | startTag selfClosing hname hattrs =>
      rw [tokens_startTag hname hattrs, ih hrest]
      rfl
    | endTag hname =>
      rw [tokens_endTag hname, ih hrest]
      rfl

/-- Joining texts changes nothing but texts. -/
theorem mem_joinTexts_startTag {ts : List Token} {name attrs : List Char} {selfClosing : Bool}
    (h : .startTag name attrs selfClosing ∈ joinTexts ts) :
    .startTag name attrs selfClosing ∈ ts := by
  induction ts with
  | nil => exact h
  | cons t ts ih =>
    cases t with
    | text s =>
      refine List.mem_cons_of_mem _ (ih ?_)
      rw [joinTexts] at h
      unfold prependText at h
      split at h
      · rename_i he
        rw [he]
        exact List.mem_cons_of_mem _ (by simpa using h)
      · split at h
        · exact h
        · simpa using h
    | _ =>
      rcases List.mem_cons.1 h with h | h
      · exact h ▸ List.mem_cons_self
      · exact List.mem_cons_of_mem _ (ih h)

end DocMarkup.RawHtml
