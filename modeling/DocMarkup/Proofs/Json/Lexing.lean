import DocMarkup.Proofs.Json.Text
import DocMarkup.Proofs.Text.Pieces
import Mathlib.Data.List.Chain

/-!
# The tokens of a JSON text

The lexer takes each written form of a token for the token. Where a token ends it sees by itself,
except for a number: that goes on as long as digits do. In a text of a value a number stands before
a comma, before the end of its container or at the end of the text, so it ends there.

## Main definitions

* `Json.EndsNumber` : what may follow a number.
* `Json.Parted` : tokens of which one ends where the other starts.

## Main results

* `Json.stringBody_eq`, `Json.numeral_eq`, `Json.lexeme_of_tokenText` : one token.
* `Json.lexemes_of_tokensText`, `Json.Value.lexemes_of_isText` : the tokens of a text.
-/

namespace DocMarkup.Json

/-! ### Strings -/

theorem hex4_eq {digits : List Char} {n : Nat} (h : Hex4 digits n) (rest : List Char) :
    hex4 (digits ++ rest) = .ok (n, rest) := by
  obtain @⟨a, b, c, d, w, x, y, z, ha, hb, hc, hd⟩ := h
  have hsize : ¬ ((a :: b :: c :: d :: rest).take 4).foldl (fun n c => n + c.utf8Size) 0 < 4 := by
    have := a.utf8Size_pos
    have := b.utf8Size_pos
    have := c.utf8Size_pos
    have := d.utf8Size_pos
    change ¬ 0 + a.utf8Size + b.utf8Size + c.utf8Size + d.utf8Size < 4
    omega
  change hex4 (a :: b :: c :: d :: rest) = _
  rw [hex4, if_neg hsize, ha, hb, hc, hd]

theorem unicodeEscape_unit {c : Char} {digits : List Char} (h : Hex4 digits c.toNat)
    (rest : List Char) : unicodeEscape (digits ++ rest) = .ok (c, rest) := by
  have hvalid : c.toNat < 0xd800 ∨ 0xdfff < c.toNat := by
    rcases c.valid with h | h
    · exact Or.inl h
    · exact Or.inr h.1
  rw [unicodeEscape, hex4_eq h]
  change (if 0xdc00 ≤ c.toNat ∧ c.toNat ≤ 0xdfff then _ else _ :
    Except Fault (Char × List Char)) = _
  rw [if_neg (by omega), if_pos (by omega), Char.ofNat_toNat]

theorem unicodeEscape_pair {c : Char} {high low : List Char} {m n : Nat}
    (hhigh : Hex4 high (0xd800 + m)) (hm : m < 0x400) (hlow : Hex4 low (0xdc00 + n))
    (hn : n < 0x400) (hc : c.toNat = 0x10000 + m * 0x400 + n) (rest : List Char) :
    unicodeEscape (high ++ '\\' :: 'u' :: (low ++ rest)) = .ok (c, rest) := by
  simp only [unicodeEscape, hex4_eq hhigh, bind, Except.bind]
  rw [if_neg (by omega), if_neg (by omega)]
  simp only [hex4_eq hlow]
  rw [if_pos (by omega), Nat.add_sub_cancel_left, Nat.add_sub_cancel_left, ← hc, Char.ofNat_toNat]

theorem escape_short {letter c : Char} (h : (letter, c) ∈ shortEscapes) (rest : List Char) :
    escape (letter :: rest) = .ok (c, rest) := by
  have hplain : letter ≠ 'u' ∧ plainEscape? letter = some c := by
    revert h
    simp only [shortEscapes, List.mem_cons, Prod.mk.injEq, List.not_mem_nil, or_false]
    rintro (⟨rfl, rfl⟩ | ⟨rfl, rfl⟩ | ⟨rfl, rfl⟩ | ⟨rfl, rfl⟩ | ⟨rfl, rfl⟩ | ⟨rfl, rfl⟩ |
      ⟨rfl, rfl⟩ | ⟨rfl, rfl⟩) <;> decide
  rw [escape, if_neg hplain.1, hplain.2]

theorem stringBody_escape {c : Char} {s after cs rest : List Char}
    (hescape : escape s = .ok (c, after)) (hbody : stringBody after = .ok (cs, rest)) :
    stringBody ('\\' :: s) = .ok (c :: cs, rest) := by
  rw [stringBody]
  split
  · rename_i f hf
    rw [hescape] at hf
    cases hf
  · rename_i d after' hok
    rw [hescape] at hok
    cases hok
    rw [hbody]
    rfl

/-- The lexer reads a string as it is written, up to its closing quotation mark. -/
theorem stringBody_eq {cs text : List Char} (h : StringText cs text) (rest : List Char) :
    stringBody (text ++ '"' :: rest) = .ok (cs, rest) := by
  induction h with
  | nil => rw [List.nil_append, stringBody]
  | char hcontrol hquote hbackslash _ ih =>
    rw [List.cons_append, stringBody, if_neg (by omega), ih]
    · rfl
    · exact hquote
    · exact hbackslash
  | short hletter _ ih => exact stringBody_escape (escape_short hletter _) ih
  | @unit c digits cs text hdigits _ ih =>
    refine stringBody_escape ?_ ih
    change escape ('u' :: ((digits ++ text) ++ '"' :: rest)) = _
    rw [List.append_assoc, escape, if_pos rfl, unicodeEscape_unit hdigits]
  | @pair c high low cs text m n hhigh hm hlow hn hc _ ih =>
    refine stringBody_escape ?_ ih
    change escape ('u' :: ((high ++ '\\' :: 'u' :: (low ++ text)) ++ '"' :: rest)) = _
    rw [List.append_assoc, List.cons_append, List.cons_append, List.append_assoc, escape,
      if_pos rfl, unicodeEscape_pair hhigh hm hlow hn hc]

/-! ### Numbers -/

/-- The text does not go on with a digit. -/
def EndsDigits (rest : List Char) : Prop := ∀ c ∈ rest.head?, c.isDigit = false

/-- The text does not go on with a part of a number. -/
def EndsNumber (rest : List Char) : Prop :=
  ∀ c ∈ rest.head?, c.isDigit = false ∧ c ≠ '.' ∧ c ≠ 'e' ∧ c ≠ 'E'

theorem EndsNumber.endsDigits {rest : List Char} (h : EndsNumber rest) : EndsDigits rest :=
  fun c hc => (h c hc).1

/-- The lexer reads digits up to the first character that is none. -/
theorem digits1_eq {ds rest : List Char} (h : IsDigits ds) (hrest : EndsDigits rest) :
    digits1 (ds ++ rest) = .ok (ds, rest) := by
  rw [digits1, Text.takeWhile_run h.2 hrest, Text.dropWhile_run h.2 hrest]
  split
  · exact absurd rfl h.1
  · rfl

theorem wholeDigits_eq {ds rest : List Char} (h : IsDigits ds)
    (hzero : ∀ c more, ds ≠ '0' :: c :: more) (hrest : EndsDigits rest) :
    wholeDigits (ds ++ rest) = .ok (ds, rest) := by
  rw [wholeDigits, digits1_eq h hrest]
  split
  · rename_i hds
    cases hds
    exact absurd rfl (hzero _ _)
  · rfl

theorem fraction_eq {f : Option (List Char)} {text rest : List Char} (h : FractionText f text)
    (hrest : EndsDigits rest) (hpoint : ∀ c ∈ rest.head?, c ≠ '.') :
    fraction (text ++ rest) = .ok (f, rest) := by
  cases h with
  | none =>
    rw [List.nil_append, fraction]
    rintro more rfl
    exact hpoint '.' rfl rfl
  | some h =>
    rw [List.cons_append, fraction, digits1_eq h hrest]
    rfl

theorem exponentSign_eq {down : Bool} {sign ds : List Char} (h : SignText down sign)
    (hds : IsDigits ds) (rest : List Char) :
    exponentSign (sign ++ (ds ++ rest)) = (down, ds ++ rest) := by
  cases h with
  | none =>
    obtain ⟨c, ds, rfl⟩ := List.exists_cons_of_ne_nil hds.1
    have hc := hds.2 c List.mem_cons_self
    rw [List.nil_append, List.cons_append, exponentSign]
    · rintro more ⟨⟩
      exact absurd hc (by decide)
    · rintro more ⟨⟩
      exact absurd hc (by decide)
  | plus => rfl
  | minus => rfl

theorem exponent_eq {e : Option (Bool × List Char)} {text rest : List Char}
    (h : ExponentText e text) (hrest : EndsNumber rest) :
    exponent (text ++ rest) = .ok (e, rest) := by
  cases h with
  | none =>
    cases rest with
    | nil => rfl
    | cons c rest =>
      have hc := hrest c rfl
      rw [List.nil_append, exponent, if_neg (by simp only [hc.2.2, or_self, not_false_eq_true])]
  | some he hsign h =>
    rw [List.cons_append, List.append_assoc, exponent, if_pos he, exponentSign_eq hsign h,
      digits1_eq h hrest.endsDigits]
    rfl

/-- What stands before the end of a number is no digit, and a point only where a fraction is. -/
theorem ExponentText.ends {e : Option (Bool × List Char)} {text rest : List Char}
    (h : ExponentText e text) (hrest : EndsNumber rest) :
    EndsDigits (text ++ rest) ∧ ∀ c ∈ (text ++ rest).head?, c ≠ '.' := by
  cases h with
  | none => exact ⟨hrest.endsDigits, fun c hc => (hrest c hc).2.1⟩
  | some he =>
    rw [EndsDigits, List.cons_append, List.head?_cons]
    rcases he with rfl | rfl <;> exact ⟨by simp [Char.isDigit], by simp⟩

theorem FractionText.ends {f : Option (List Char)} {text rest : List Char}
    (h : FractionText f text) (hrest : EndsDigits rest) : EndsDigits (text ++ rest) := by
  cases h with
  | none => exact hrest
  | some =>
    rw [EndsDigits, List.cons_append, List.head?_cons]
    simp [Char.isDigit]

/-- The lexer reads a number as it is written. -/
theorem numeral_eq {m : Numeral} {f e rest : List Char} {n : Number} (h : NumeralText m f e)
    (hn : m.number? = some n) (hrest : EndsNumber rest) :
    numeral m.negative (m.whole ++ (f ++ (e ++ rest))) = .ok (n, rest) := by
  have hexponent := h.exponent.ends hrest
  have hwhole := wholeDigits_eq h.whole h.no_zero (h.fraction.ends hexponent.1)
  have hfraction := fraction_eq h.fraction hexponent.1 hexponent.2
  simp only [numeral, hwhole, hfraction, exponent_eq h.exponent hrest, bind, Except.bind, hn]

/-! ### Tokens -/

theorem isSpace_of_isDigit {c : Char} (h : c.isDigit = true) : isSpace c = false := by
  rw [Bool.eq_false_iff, ne_eq, isSpace]
  simp only [Bool.or_eq_true, decide_eq_true_eq]
  rintro (((rfl | rfl) | rfl) | rfl) <;> exact absurd h (by decide)

theorem lexeme_of_isDigit {c : Char} (h : c.isDigit = true) (s : List Char) :
    lexeme c s = lexemeOf .scalar .number (numeral false (c :: s)) := by
  unfold lexeme
  split
  case h_12 => rw [if_pos h]
  all_goals exact absurd h (by decide)

/-- The lexer finds a token as it is written. A number must have come to its end. -/
theorem lexeme_of_tokenText {t : Token} {text rest : List Char} (h : TokenText t text)
    (hrest : ∀ n, t = .number n → EndsNumber rest) :
    ∃ c s, text = c :: s ∧ isSpace c = false ∧ lexeme c (s ++ rest) = (.token t, rest) := by
  cases h with
  | openArray | closeArray | openObject | closeObject | comma | colon | null | true | false =>
    exact ⟨_, _, rfl, rfl, rfl⟩
  | @string s text h =>
    refine ⟨_, _, rfl, rfl, ?_⟩
    rw [List.append_assoc, List.singleton_append, lexeme, stringBody_eq h, lexemeOf,
      String.ofList_toList]
  | @number n m f e hn h =>
    have hread := numeral_eq h hn (hrest n rfl)
    obtain ⟨negative, whole, fr, ex⟩ := m
    cases negative with
    | true =>
      refine ⟨'-', whole ++ f ++ e, by simp, rfl, ?_⟩
      rw [List.append_assoc, List.append_assoc, lexeme, hread, lexemeOf]
    | false =>
      obtain ⟨c, ds, rfl⟩ := List.exists_cons_of_ne_nil h.whole.1
      have hc := h.whole.2 c List.mem_cons_self
      refine ⟨c, ds ++ f ++ e, by simp, isSpace_of_isDigit hc, ?_⟩
      rw [List.append_assoc, List.append_assoc, lexeme_of_isDigit hc]
      change lexemeOf _ _ (numeral false (c :: ds ++ (f ++ (e ++ rest)))) = _
      rw [hread, lexemeOf]

theorem lexemes_cons {blanks s rest : List Char} {c : Char} {t : Token}
    (hblanks : ∀ b ∈ blanks, isSpace b = true) (hc : isSpace c = false)
    (h : lexeme c s = (.token t, rest)) :
    lexemes (blanks ++ c :: s) = .token t :: lexemes rest := by
  have hdrop : (blanks ++ c :: s).dropWhile isSpace = c :: s := by
    rw [List.dropWhile_append_of_pos hblanks, List.dropWhile_cons_of_neg (by rw [hc]; decide)]
  rw [lexemes]
  split
  · rename_i hnil
    rw [hdrop] at hnil
    cases hnil
  · rename_i d s' hcons
    rw [hdrop] at hcons
    cases hcons
    simp only [h]

/-- After a number comes a comma or the end of the container. -/
def Parted (t u : Token) : Prop :=
  (∃ n, t = .number n) → u = .comma ∨ u = .closeArray ∨ u = .closeObject

/-- Blanks and what parts two tokens end a number. -/
theorem TokensText.endsNumber {ts : List Token} {text : List Char} (h : TokensText ts text)
    (hts : ∀ u ∈ ts.head?, u = .comma ∨ u = .closeArray ∨ u = .closeObject) :
    EndsNumber text := by
  have hblank {c : Char} (hc : isSpace c = true) :
      c.isDigit = false ∧ c ≠ '.' ∧ c ≠ 'e' ∧ c ≠ 'E' := by
    rw [isSpace] at hc
    simp only [Bool.or_eq_true, decide_eq_true_eq] at hc
    rcases hc with ((rfl | rfl) | rfl) | rfl <;> decide
  cases h with
  | nil hblanks => exact fun c hc => hblank (hblanks c (List.mem_of_mem_head? hc))
  | @cons t ts blanks text rest hblanks ht h =>
    cases blanks with
    | cons b blanks =>
      rintro c ⟨⟩
      exact hblank (hblanks b List.mem_cons_self)
    | nil =>
      rcases hts t rfl with rfl | rfl | rfl <;> cases ht <;> rintro c ⟨⟩ <;> decide

/-- The lexer finds the tokens of a text in which something parts the numbers from what follows. -/
theorem lexemes_of_tokensText {ts : List Token} {text : List Char} (h : TokensText ts text)
    (hparted : ts.IsChain Parted) : lexemes text = ts.map .token := by
  induction h with
  | @nil blanks hblanks =>
    rw [lexemes]
    split
    · rfl
    · rename_i c s hcons
      have hnil : blanks.dropWhile isSpace = [] := by
        rw [List.dropWhile_eq_nil_iff]
        exact hblanks
      rw [hnil] at hcons
      cases hcons
  | @cons t ts blanks text rest hblanks ht h ih =>
    have hends : ∀ n, t = .number n → EndsNumber rest := fun n hn =>
      h.endsNumber fun u hu => (List.isChain_cons.mp hparted).1 u hu ⟨n, hn⟩
    obtain ⟨c, s, rfl, hc, hlexeme⟩ := lexeme_of_tokenText ht hends
    rw [List.cons_append, lexemes_cons hblanks hc hlexeme, ih (List.isChain_cons.mp hparted).2,
      List.map_cons]

/-! ### The tokens of a value -/

namespace Value

theorem parted_of_ne {t u : Token} (h : ∀ n, t ≠ .number n) : Parted t u :=
  fun ⟨n, hn⟩ => absurd hn (h n)

theorem isChain_cons_of_ne {t : Token} {ts : List Token} (h : ∀ n, t ≠ .number n)
    (hts : ts.IsChain Parted) : (t :: ts).IsChain Parted :=
  List.isChain_cons.mpr ⟨fun _ _ => parted_of_ne h, hts⟩

theorem head_moreItems (vs : List Value) (rest : List Token) :
    ∀ u ∈ (moreItems vs ++ rest).head?, u = .comma ∨ u = .closeArray ∨ u = .closeObject := by
  cases vs <;> simp [moreItems]

theorem head_moreMembers (ms : List (String × Value)) (rest : List Token) :
    ∀ u ∈ (moreMembers ms ++ rest).head?, u = .comma ∨ u = .closeArray ∨ u = .closeObject := by
  rcases ms with _ | ⟨⟨k, v⟩, ms⟩ <;> simp [moreMembers]

mutual

/-- Something parts the numbers of a value from the tokens after them. -/
theorem isChain_tokens : ∀ (v : Value) {rest : List Token},
    (∀ u ∈ rest.head?, u = .comma ∨ u = .closeArray ∨ u = .closeObject) →
    rest.IsChain Parted → (v.tokens ++ rest).IsChain Parted
  | null, _, _, h | bool _, _, _, h | string _, _, _, h => isChain_cons_of_ne (by simp) h
  | number n, rest, hhead, h => List.isChain_cons.mpr ⟨fun u hu _ => hhead u hu, h⟩
  | array [], _, _, h | object [], _, _, h =>
    isChain_cons_of_ne (by simp) (isChain_cons_of_ne (by simp) h)
  | array (v :: vs), rest, _, h => by
    rw [tokens, List.cons_append, List.append_assoc]
    exact isChain_cons_of_ne (by simp)
      (isChain_tokens v (head_moreItems vs rest) (isChain_moreItems vs h))
  | object ((k, v) :: ms), rest, _, h => by
    rw [tokens, List.cons_append, List.cons_append, List.cons_append, List.append_assoc]
    exact isChain_cons_of_ne (by simp) (isChain_cons_of_ne (by simp)
      (isChain_cons_of_ne (by simp)
        (isChain_tokens v (head_moreMembers ms rest) (isChain_moreMembers ms h))))

theorem isChain_moreItems : ∀ (vs : List Value) {rest : List Token},
    rest.IsChain Parted → (moreItems vs ++ rest).IsChain Parted
  | [], _, h => isChain_cons_of_ne (by simp) h
  | v :: vs, rest, h => by
    rw [moreItems, List.cons_append, List.append_assoc]
    exact isChain_cons_of_ne (by simp)
      (isChain_tokens v (head_moreItems vs rest) (isChain_moreItems vs h))

theorem isChain_moreMembers : ∀ (ms : List (String × Value)) {rest : List Token},
    rest.IsChain Parted → (moreMembers ms ++ rest).IsChain Parted
  | [], _, h => isChain_cons_of_ne (by simp) h
  | (k, v) :: ms, rest, h => by
    rw [moreMembers, List.cons_append, List.cons_append, List.cons_append, List.append_assoc]
    exact isChain_cons_of_ne (by simp) (isChain_cons_of_ne (by simp)
      (isChain_cons_of_ne (by simp)
        (isChain_tokens v (head_moreMembers ms rest) (isChain_moreMembers ms h))))

end

/-- The lexer finds the tokens of a value in every text of it. -/
theorem lexemes_of_isText {v : Value} {s : String} (h : v.IsText s) :
    lexemes s.toList = v.tokens.map .token := by
  refine lexemes_of_tokensText h ?_
  have hchain : (v.tokens ++ []).IsChain Parted :=
    isChain_tokens v (fun u hu => by cases hu) List.IsChain.nil
  rwa [List.append_nil] at hchain

end Value

end DocMarkup.Json
