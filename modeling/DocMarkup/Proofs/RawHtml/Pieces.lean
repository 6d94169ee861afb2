import DocMarkup.Proofs.RawHtml.Elements

/-!
# The pieces of raw HTML

A text of raw HTML is one sequence of pieces: comments, tags, runs without a `<`, and each `<` that
begins none of these. The tokens are those of the pieces in order; every character belongs to one
piece, and no text can be cut into pieces in two ways.

The relations here say what a piece is without reading it: a tag ends at its first `>`, a comment at
its first `-->` behind its beginning, and a run where the next `<` stands.

## Main definitions

* `RawHtml.IsStartTag`, `RawHtml.IsEndTag` : what the inside of a tag says.
* `RawHtml.IsMarkup` : comments and tags, with their tokens.
* `RawHtml.IsPiece` : the pieces that can stand before a text.
* `RawHtml.IsCut` : the texts that pieces make.

## Main results

* `RawHtml.markup?_eq_some_iff`, `RawHtml.piece_eq_iff` : what is read first is a piece.
* `RawHtml.tokens_cut` : the tokens of a text are those of its pieces.
-/

namespace DocMarkup.RawHtml

/-- The inside of a start tag with its token: the longest name it starts with, and the attribute
text. A slash with nothing but blanks behind it closes the element at once, and is then no part of
the attribute text. -/
inductive IsStartTag : List Char → Token → Prop
  | opened {name attributes : List Char} (hname : ∀ c ∈ name, isNameChar c = true)
      (hrest : ∀ c ∈ attributes.head?, isNameChar c = false)
      (hslash : ∀ kept blanks, attributes = kept ++ '/' :: blanks →
        ∃ c ∈ blanks, Text.isBlank c = false) :
      IsStartTag (name ++ attributes) (.startTag (name.map Char.toLower) attributes false)
  | closed {name attributes blanks : List Char} (hname : ∀ c ∈ name, isNameChar c = true)
      (hrest : ∀ c ∈ attributes.head?, isNameChar c = false)
      (hblanks : ∀ c ∈ blanks, Text.isBlank c = true) :
      IsStartTag (name ++ (attributes ++ '/' :: blanks))
        (.startTag (name.map Char.toLower) attributes true)

/-- The inside of an end tag with its token: the longest name it starts with, and blanks. With
anything else behind the name the whole tag is a text. -/
inductive IsEndTag : List Char → Token → Prop
  | tag {name blanks : List Char} (hname : ∀ c ∈ name, isNameChar c = true)
      (hblanks : ∀ c ∈ blanks, Text.isBlank c = true) :
      IsEndTag (name ++ blanks) (.endTag (name.map Char.toLower))
  | text {name junk : List Char} (hname : ∀ c ∈ name, isNameChar c = true)
      (hrest : ∀ c ∈ junk.head?, isNameChar c = false)
      (hjunk : ∃ c ∈ junk, Text.isBlank c = false) :
      IsEndTag (name ++ junk) (.text ('<' :: '/' :: (name ++ junk) ++ ['>']))

/-- The mark that ends a comment. -/
def commentEnd : List Char := ['-', '-', '>']

/-- The text `s` stands before the first occurrence of the mark in `s ++ mark`. -/
def IsBefore (mark s : List Char) : Prop :=
  ∀ before after, s ++ mark = before ++ (mark ++ after) → before = s

/-- A comment, which has no token, or a tag with its token. -/
inductive IsMarkup : List Char → Option Token → Prop
  /-- A comment ends at the first mark behind its beginning. -/
  | comment {inside : List Char}
      (hfirst : IsBefore commentEnd inside) :
      IsMarkup ('<' :: '!' :: '-' :: '-' :: (inside ++ commentEnd)) none
  | startTag {c : Char} {inside : List Char} {t : Token} (hc : c.isAlpha = true)
      (hend : '>' ∉ c :: inside) (h : IsStartTag (c :: inside) t) :
      IsMarkup ('<' :: c :: inside ++ ['>']) (some t)
  | endTag {c : Char} {inside : List Char} {t : Token} (hc : c.isAlpha = true)
      (hend : '>' ∉ c :: inside) (h : IsEndTag (c :: inside) t) :
      IsMarkup ('<' :: '/' :: c :: inside ++ ['>']) (some t)

/-- A piece before the text `rest`, with its token. A `<` is a piece of its own just where no
comment and no tag begins. -/
inductive IsPiece (rest : List Char) : List Char → Option Token → Prop
  | markup {front : List Char} {t : Option Token} (h : IsMarkup front t) : IsPiece rest front t
  | text {front : List Char} (hne : front ≠ []) (hfront : '<' ∉ front)
      (hrest : ∀ c ∈ rest.head?, c = '<') : IsPiece rest front (some (.text front))
  | lessThan (h : ∀ front t after, '<' :: rest = front ++ after → ¬ IsMarkup front t) :
      IsPiece rest ['<'] (some .lessThan)

/-- A text that is cut into pieces, each with its token. -/
inductive IsCut : List Char → List (List Char × Option Token) → Prop
  | nil : IsCut [] []
  | cons {front rest : List Char} {t : Option Token} {pieces : List (List Char × Option Token)}
      (h : IsPiece rest front t) (hrest : IsCut rest pieces) :
      IsCut (front ++ rest) ((front, t) :: pieces)

/-! ### The inside of a tag -/

theorem not_isNameChar_of_isBlank {c : Char} (h : Text.isBlank c = true) :
    isNameChar c = false := by
  rw [Bool.eq_false_iff]
  intro hname
  have hmark : c.isAlphanum = true ∨ c = '-' ∨ c = '_' ∨ c = ':' ∨ c = '.' := by
    simp only [isNameChar, Bool.or_eq_true, decide_eq_true_eq] at hname
    rcases hname with ((hname | hname) | hname) | hname <;> simp [hname]
  have hdelimiter := not_isDelimiter hmark
  simp [isDelimiter, h] at hdelimiter

/-- Where a text ends in a slash and blanks. -/
theorem dropWhile_reverse_eq_iff {s kept : List Char} :
    s.reverse.dropWhile Text.isBlank = '/' :: kept ↔
      ∃ blanks, s = kept.reverse ++ '/' :: blanks ∧ ∀ c ∈ blanks, Text.isBlank c = true := by
  constructor
  · intro h
    refine ⟨(s.reverse.takeWhile Text.isBlank).reverse, ?_, fun c hc => ?_⟩
    · have hs := List.takeWhile_append_dropWhile (p := Text.isBlank) (l := s.reverse)
      rw [h] at hs
      have hrev := congrArg List.reverse hs
      rw [List.reverse_reverse, List.reverse_append, List.reverse_cons, List.append_assoc] at hrev
      exact hrev.symm
    · exact List.mem_takeWhile_imp (List.mem_reverse.1 hc)
  · rintro ⟨blanks, rfl, hblanks⟩
    rw [show (kept.reverse ++ '/' :: blanks).reverse = blanks.reverse ++ '/' :: kept by simp]
    refine Text.dropWhile_run (fun c hc => hblanks c (List.mem_reverse.1 hc)) fun c hc => ?_
    cases hc
    decide

theorem startTag_of_slash {s kept : List Char}
    (h : (s.dropWhile isNameChar).reverse.dropWhile Text.isBlank = '/' :: kept) :
    startTag s = .startTag ((s.takeWhile isNameChar).map Char.toLower) kept.reverse true := by
  simp only [startTag, h]

theorem startTag_of_ne {s : List Char}
    (h : ∀ kept, (s.dropWhile isNameChar).reverse.dropWhile Text.isBlank ≠ '/' :: kept) :
    startTag s =
      .startTag ((s.takeWhile isNameChar).map Char.toLower) (s.dropWhile isNameChar) false := by
  simp only [startTag]

/-- What the inside of a start tag says is what is read. -/
theorem IsStartTag.eq_startTag {s : List Char} {t : Token} (h : IsStartTag s t) :
    t = startTag s := by
  cases h with
  | opened hname hrest hslash =>
    have hdrop := Text.dropWhile_run hname hrest
    rw [startTag_of_ne, Text.takeWhile_run hname hrest, hdrop]
    intro kept hkept
    obtain ⟨blanks, hs, hblanks⟩ := dropWhile_reverse_eq_iff.1 (hdrop ▸ hkept)
    obtain ⟨c, hc, hcblank⟩ := hslash _ _ hs
    rw [hblanks c hc] at hcblank
    cases hcblank
  | @closed name attributes blanks hname hrest hblanks =>
    have hrest : ∀ c ∈ (attributes ++ '/' :: blanks).head?, isNameChar c = false := by
      cases attributes with
      | nil => rintro c ⟨⟩; decide
      | cons => exact hrest
    have hslash := dropWhile_reverse_eq_iff.2
      ⟨blanks, by rw [List.reverse_reverse attributes], hblanks⟩
    rw [startTag_of_slash ((congrArg _ (congrArg _ (Text.dropWhile_run hname hrest))).trans hslash),
      Text.takeWhile_run hname hrest, List.reverse_reverse]

/-- Every inside of a start tag says something. -/
theorem isStartTag_startTag (s : List Char) : IsStartTag s (startTag s) := by
  obtain ⟨name, attributes, rfl, hname, hrest⟩ := Text.exists_run isNameChar s
  by_cases hslash : ∃ kept blanks, attributes = kept ++ '/' :: blanks ∧
      ∀ c ∈ blanks, Text.isBlank c = true
  · obtain ⟨kept, blanks, rfl, hblanks⟩ := hslash
    have hkept : ∀ c ∈ kept.head?, isNameChar c = false := fun c hc => by
      refine hrest c ?_
      rw [List.head?_append, hc]
      rfl
    have h := IsStartTag.closed hname hkept hblanks
    exact h.eq_startTag ▸ h
  · have h := IsStartTag.opened hname hrest fun kept blanks hattrs => by
      by_cases hblanks : ∀ c ∈ blanks, Text.isBlank c = true
      · exact absurd ⟨kept, blanks, hattrs, hblanks⟩ hslash
      · simpa using hblanks
    exact h.eq_startTag ▸ h

/-- What the inside of an end tag says is what is read. -/
theorem IsEndTag.eq_endTag {s : List Char} {t : Token} (h : IsEndTag s t) : t = endTag s := by
  cases h with
  | @tag name blanks hname hblanks =>
    have hrest : ∀ c ∈ blanks.head?, isNameChar c = false := fun c hc =>
      not_isNameChar_of_isBlank (hblanks c (List.mem_of_mem_head? hc))
    have hall : Text.allBlank blanks = true := List.all_eq_true.2 hblanks
    rw [endTag, Text.dropWhile_run hname hrest, Text.takeWhile_run hname hrest, if_pos hall]
  | @text name junk hname hrest hjunk =>
    obtain ⟨c, hc, hblank⟩ := hjunk
    have hall : ¬ Text.allBlank junk = true := fun h => by
      rw [List.all_eq_true.1 h c hc] at hblank
      cases hblank
    rw [endTag, Text.dropWhile_run hname hrest, if_neg hall]

/-- Every inside of an end tag says something. -/
theorem isEndTag_endTag (s : List Char) : IsEndTag s (endTag s) := by
  obtain ⟨name, rest, rfl, hname, hrest⟩ := Text.exists_run isNameChar s
  by_cases hblanks : ∀ c ∈ rest, Text.isBlank c = true
  · have h := IsEndTag.tag hname hblanks
    exact h.eq_endTag ▸ h
  · have h := IsEndTag.text hname hrest (by simpa using hblanks)
    exact h.eq_endTag ▸ h

/-! ### Comments and tags -/

section IsBefore

variable {mark s : List Char}

theorem isBefore_nil (mark : List Char) : IsBefore mark [] := fun before after h => by
  have hlen := congrArg List.length h
  simp only [List.nil_append, List.length_append] at hlen
  exact List.length_eq_zero_iff.1 (by omega)

theorem isBefore_cons {c : Char} :
    IsBefore mark (c :: s) ↔ ¬ mark <+: c :: (s ++ mark) ∧ IsBefore mark s := by
  constructor
  · refine fun h => ⟨fun ⟨after, hafter⟩ => ?_, fun before after he => ?_⟩
    · cases h [] after hafter.symm
    · have hcons := h (c :: before) after (congrArg (c :: ·) he)
      exact (List.cons.inj hcons).2
  · rintro ⟨hno, h⟩ before after he
    cases before with
    | nil => exact absurd ⟨after, he.symm⟩ hno
    | cons d before =>
      obtain ⟨rfl, hrest⟩ := List.cons.inj he
      rw [h before after hrest]

/-- Whether a mark stands at the start of a text does not depend on what follows a mark in it. -/
theorem prefix_append_iff {rest : List Char} :
    mark <+: s ++ (mark ++ rest) ↔ mark <+: s ++ mark := by
  rw [← List.append_assoc]
  refine ⟨fun h => ?_, fun h => h.trans (List.prefix_append _ _)⟩
  refine List.prefix_of_prefix_length_le h (List.prefix_append _ _) ?_
  rw [List.length_append]
  exact Nat.le_add_left _ _

end IsBefore

/-- A comment ends at the first mark. -/
theorem afterComment?_eq_some_iff {s rest : List Char} :
    afterComment? s = some rest ↔
      ∃ inside, s = inside ++ (commentEnd ++ rest) ∧ IsBefore commentEnd inside := by
  fun_induction afterComment? s with
  | case1 => simp [commentEnd]
  | case2 after =>
    constructor
    · rintro ⟨⟩
      exact ⟨[], rfl, isBefore_nil commentEnd⟩
    · rintro ⟨inside, hs, hfirst⟩
      cases inside with
      | nil =>
        cases hs
        rfl
      | cons c inside =>
        have hmark : commentEnd <+: c :: inside ++ (commentEnd ++ rest) := ⟨after, hs⟩
        exact absurd (prefix_append_iff.1 hmark) (isBefore_cons.1 hfirst).1
  | case3 c s hne ih =>
    have hnone : ¬ commentEnd <+: c :: s := by
      rintro ⟨after, hs⟩
      obtain ⟨hc, hrest⟩ := List.cons.inj hs
      exact hne after hc.symm hrest.symm
    rw [ih]
    constructor
    · rintro ⟨inside, rfl, hfirst⟩
      refine ⟨c :: inside, rfl, isBefore_cons.2 ⟨fun h => hnone ?_, hfirst⟩⟩
      exact prefix_append_iff (s := c :: inside) |>.2 h
    · rintro ⟨inside, hs, hfirst⟩
      cases inside with
      | nil => exact absurd ⟨rest, hs.symm⟩ hnone
      | cons d inside =>
        obtain ⟨rfl, htail⟩ := List.cons.inj hs
        exact ⟨inside, htail, (isBefore_cons.1 hfirst).2⟩

/-- A tag that starts with a letter and ends at the first `>`. -/
theorem tag?_cons_eq_some_iff {make : List Char → Token} {c : Char} (hc : c.isAlpha = true)
    {s rest : List Char} {t : Token} :
    tag? make (c :: s) = some (t, rest) ↔
      ∃ inside, s = inside ++ '>' :: rest ∧ '>' ∉ c :: inside ∧ t = make (c :: inside) := by
  rw [tag?_eq_some_iff]
  constructor
  · rintro ⟨inside, hs, hend, ht⟩
    cases inside with
    | nil =>
      obtain ⟨rfl, -⟩ := List.cons.inj hs
      exact absurd hc (by decide)
    | cons d inside =>
      obtain ⟨rfl, htail⟩ := List.cons.inj hs
      exact ⟨inside, htail, hend, ht⟩
  · rintro ⟨inside, rfl, hend, ht⟩
    exact ⟨c :: inside, rfl, hend, ht⟩

/-- What is read behind a `<` is a comment or a tag, and every comment and every tag is read. -/
theorem markup?_eq_some_iff {s rest : List Char} {t : Option Token} :
    markup? s = some (t, rest) ↔ ∃ front, '<' :: s = front ++ rest ∧ IsMarkup front t := by
  constructor
  · intro h
    unfold markup? at h
    split at h
    · obtain ⟨r, hr, he⟩ := Option.map_eq_some_iff.1 h
      cases he
      obtain ⟨inside, rfl, hfirst⟩ := afterComment?_eq_some_iff.1 hr
      exact ⟨_, by simp, .comment hfirst⟩
    · split at h
      · rename_i c s hc
        obtain ⟨⟨t, r⟩, ht, he⟩ := Option.map_eq_some_iff.1 h
        cases he
        obtain ⟨inside, rfl, hend, rfl⟩ := (tag?_cons_eq_some_iff hc).1 ht
        exact ⟨_, by simp, .endTag hc hend (isEndTag_endTag _)⟩
      · cases h
    · split at h
      · rename_i c s _ _ hc
        obtain ⟨⟨t, r⟩, ht, he⟩ := Option.map_eq_some_iff.1 h
        cases he
        obtain ⟨inside, rfl, hend, rfl⟩ := (tag?_cons_eq_some_iff hc).1 ht
        exact ⟨_, by simp, .startTag hc hend (isStartTag_startTag _)⟩
      · cases h
    · cases h
  · rintro ⟨front, hs, h⟩
    cases h with
    | @comment inside hfirst =>
      have hs : s = '!' :: '-' :: '-' :: (inside ++ (commentEnd ++ rest)) := by simpa using hs
      rw [hs, markup?, afterComment?_eq_some_iff.2 ⟨inside, rfl, hfirst⟩]
      rfl
    | @startTag c inside t hc hend h =>
      have hs : s = c :: (inside ++ '>' :: rest) := by simpa using hs
      rw [hs, markup?_cons_of_isAlpha hc,
        (tag?_cons_eq_some_iff hc).2 ⟨inside, rfl, hend, h.eq_startTag⟩]
      rfl
    | @endTag c inside t hc hend h =>
      have hs : s = '/' :: c :: (inside ++ '>' :: rest) := by simpa using hs
      rw [hs, markup?, if_pos hc,
        (tag?_cons_eq_some_iff hc).2 ⟨inside, rfl, hend, h.eq_endTag⟩]
      rfl

/-- Markup starts with a `<`. -/
theorem IsMarkup.exists_cons {front : List Char} {t : Option Token} (h : IsMarkup front t) :
    ∃ s, front = '<' :: s := by
  cases h with
  | comment => exact ⟨_, rfl⟩
  | startTag => exact ⟨_, rfl⟩
  | endTag => exact ⟨_, rfl⟩

/-! ### The first piece -/

/-- A text without `<` that stands before one is read as far as it goes. -/
theorem takeWhile_dropWhile_of_notMem {front rest : List Char} (hfront : '<' ∉ front)
    (hrest : ∀ c ∈ rest.head?, c = '<') :
    (front ++ rest).takeWhile (· ≠ '<') = front ∧ (front ++ rest).dropWhile (· ≠ '<') = rest := by
  have hrun : ∀ c ∈ front, decide (c ≠ '<') = true := fun c hc =>
    decide_eq_true fun h => hfront (h ▸ hc)
  have hstop : ∀ c ∈ rest.head?, decide (c ≠ '<') = false := fun c hc =>
    decide_eq_false fun h => h (hrest c hc)
  exact ⟨Text.takeWhile_run hrun hstop, Text.dropWhile_run hrun hstop⟩

/-- **What is read first is a piece, and the only one that the text starts with.** -/
theorem piece_eq_iff {c : Char} {s rest : List Char} {t : Option Token} :
    piece c s = (t, rest) ↔ ∃ front, c :: s = front ++ rest ∧ IsPiece rest front t := by
  by_cases hc : c = '<'
  · subst hc
    have hmarkup := @markup?_eq_some_iff s
    rw [piece, if_pos rfl]
    constructor
    · intro h
      cases hm : markup? s with
      | some p =>
        rw [hm] at h
        obtain ⟨front, hs, hfront⟩ := hmarkup.1 (hm.trans (congrArg some h))
        exact ⟨front, hs, .markup hfront⟩
      | none =>
        rw [hm] at h
        cases h
        refine ⟨['<'], rfl, .lessThan fun front t after hs hfront => ?_⟩
        cases hm.symm.trans (hmarkup.2 ⟨front, hs, hfront⟩)
    · rintro ⟨front, hs, h⟩
      cases h with
      | markup h => rw [hmarkup.2 ⟨front, hs, h⟩, Option.getD_some]
      | text hne hfront hrest =>
        obtain ⟨d, front, rfl⟩ := List.exists_cons_of_ne_nil hne
        obtain ⟨rfl, -⟩ := List.cons.inj hs
        exact absurd List.mem_cons_self hfront
      | lessThan h =>
        obtain ⟨-, rfl⟩ := List.cons.inj hs
        have hnone : markup? s = none := Option.eq_none_iff_forall_ne_some.2 fun p hp => by
          obtain ⟨front, hs, hfront⟩ := hmarkup.1 hp
          exact h front p.1 p.2 hs hfront
        rw [hnone, Option.getD_none]
  · rw [piece, if_neg hc]
    constructor
    · intro h
      cases h
      have hfront : '<' ∉ c :: s.takeWhile (· ≠ '<') := fun hm => by
        rcases List.mem_cons.1 hm with h | h
        · exact hc h.symm
        · simpa using List.mem_takeWhile_imp h
      have hrest : ∀ d ∈ (s.dropWhile (· ≠ '<')).head?, d = '<' := fun d hd => by
        simpa using Text.head?_dropWhile _ s d hd
      refine ⟨_, ?_, .text (List.cons_ne_nil _ _) hfront hrest⟩
      rw [List.cons_append, List.takeWhile_append_dropWhile]
    · rintro ⟨front, hs, h⟩
      cases h with
      | markup h =>
        obtain ⟨front, rfl⟩ := h.exists_cons
        exact absurd (List.cons.inj hs).1 hc
      | text hne hfront hrest =>
        obtain ⟨d, front, rfl⟩ := List.exists_cons_of_ne_nil hne
        obtain ⟨rfl, htail⟩ : c = d ∧ s = front ++ rest := List.cons.inj hs
        obtain ⟨htake, hdrop⟩ := takeWhile_dropWhile_of_notMem
          (fun h => hfront (List.mem_cons_of_mem c h)) hrest
        rw [htail, htake, hdrop]
      | lessThan => exact absurd (List.cons.inj hs).1 hc

/-- A piece has a character. -/
theorem IsPiece.exists_cons {front rest : List Char} {t : Option Token} (h : IsPiece rest front t) :
    ∃ c s, front = c :: s := by
  cases h with
  | markup h => exact ⟨_, h.exists_cons⟩
  | text hne => exact List.exists_cons_of_ne_nil hne
  | lessThan => exact ⟨_, _, rfl⟩

/-- Pieces that the same text starts with are the same. -/
theorem IsPiece.unique {front front' rest rest' : List Char} {t t' : Option Token}
    (h : IsPiece rest front t) (h' : IsPiece rest' front' t')
    (hs : front ++ rest = front' ++ rest') : front = front' ∧ t = t' ∧ rest = rest' := by
  obtain ⟨c, s, rfl⟩ := h.exists_cons
  have hpiece : piece c (s ++ rest) = (t, rest) := piece_eq_iff.2 ⟨c :: s, rfl, h⟩
  have hpiece' : piece c (s ++ rest) = (t', rest') := piece_eq_iff.2 ⟨front', hs, h'⟩
  obtain ⟨rfl, rfl⟩ := Prod.mk.inj (hpiece.symm.trans hpiece')
  exact ⟨List.append_cancel_right hs, rfl, rfl⟩

/-! ### All pieces -/

namespace IsCut

variable {s : List Char} {pieces : List (List Char × Option Token)}

/-- The text is its pieces one after the other. -/
theorem eq_flatMap (h : IsCut s pieces) : pieces.flatMap Prod.fst = s := by
  induction h with
  | nil => rfl
  | cons _ _ ih => rw [List.flatMap_cons, ih]

theorem exists_isPiece (h : IsCut s pieces) : ∀ p ∈ pieces, ∃ rest, IsPiece rest p.1 p.2 := by
  induction h with
  | nil => exact fun _ hp => absurd hp List.not_mem_nil
  | cons hpiece _ ih => exact List.forall_mem_cons.2 ⟨⟨_, hpiece⟩, ih⟩

theorem ne_nil (h : IsCut s pieces) : ∀ p ∈ pieces, p.1 ≠ [] := fun p hp => by
  obtain ⟨rest, hpiece⟩ := h.exists_isPiece p hp
  obtain ⟨c, s, hcons⟩ := hpiece.exists_cons
  exact hcons ▸ List.cons_ne_nil c s

/-- A text can be cut in one way only. -/
theorem unique {others : List (List Char × Option Token)} (h : IsCut s pieces)
    (h' : IsCut s others) : others = pieces := by
  induction h generalizing others with
  | nil =>
    generalize hs : ([] : List Char) = s at h'
    cases h' with
    | nil => rfl
    | cons hpiece _ =>
      obtain ⟨c, s, rfl⟩ := hpiece.exists_cons
      cases hs
  | @cons front rest t pieces hpiece _ ih =>
    generalize hs : front ++ rest = s at h'
    cases h' with
    | nil =>
      obtain ⟨c, s, rfl⟩ := hpiece.exists_cons
      cases hs
    | cons hpiece' hrest' =>
      obtain ⟨rfl, rfl, rfl⟩ := hpiece.unique hpiece' hs
      rw [ih hrest']

end IsCut

/-- The pieces of a text have its tokens. -/
theorem exists_isCut (s : List Char) :
    ∃ pieces, IsCut s pieces ∧ pieces.filterMap Prod.snd = tokens s := by
  fun_induction tokens s with
  | case1 => exact ⟨[], .nil, rfl⟩
  | case2 c s t ht ih =>
    obtain ⟨front, hs, hpiece⟩ := piece_eq_iff.1 (Prod.ext ht rfl)
    obtain ⟨pieces, hcut, htokens⟩ := ih
    refine ⟨(front, some t) :: pieces, hs ▸ .cons hpiece hcut, ?_⟩
    exact congrArg (t :: ·) htokens
  | case3 c s ht ih =>
    obtain ⟨front, hs, hpiece⟩ := piece_eq_iff.1 (Prod.ext ht rfl)
    obtain ⟨pieces, hcut, htokens⟩ := ih
    exact ⟨(front, none) :: pieces, hs ▸ .cons hpiece hcut, htokens⟩

/-- **The tokens of a text are those of its pieces, one after the other.** Every text can be cut
into pieces, in one way only; none of them is empty, and together they are the text. -/
theorem tokens_cut (s : List Char) :
    ∃ pieces, IsCut s pieces ∧ (∀ p ∈ pieces, p.1 ≠ []) ∧ pieces.flatMap Prod.fst = s ∧
      pieces.filterMap Prod.snd = tokens s ∧ ∀ others, IsCut s others → others = pieces := by
  obtain ⟨pieces, hcut, htokens⟩ := exists_isCut s
  exact ⟨pieces, hcut, hcut.ne_nil, hcut.eq_flatMap, htokens, fun _ h => hcut.unique h⟩

/-! ### Texts among the tokens -/

/-- The text of a piece has a character. -/
theorem IsPiece.text_ne_nil {front rest s : List Char} (h : IsPiece rest front (some (.text s))) :
    s ≠ [] := by
  cases h with
  | markup h =>
    cases h with
    | @startTag c inside _ _ _ h =>
      generalize c :: inside = tag at h
      cases h
    | @endTag c inside _ _ _ h =>
      generalize c :: inside = tag at h
      cases h with
      | text => exact List.cons_ne_nil _ _
  | text hne => exact hne

theorem text_ne_nil_of_mem_tokens {s t : List Char} (h : .text t ∈ tokens s) : t ≠ [] := by
  obtain ⟨pieces, hcut, htokens⟩ := exists_isCut s
  rw [← htokens] at h
  obtain ⟨⟨front, _⟩, hp, rfl⟩ := List.mem_filterMap.1 h
  obtain ⟨rest, hpiece⟩ := hcut.exists_isPiece _ hp
  exact hpiece.text_ne_nil

end DocMarkup.RawHtml
