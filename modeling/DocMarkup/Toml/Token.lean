import DocMarkup.Toml.Quotation

/-!
# TOML tokens

A document as a sequence of tokens. What a word means is left open: the same letters and digits
make a key in one place and a number in another, and a full stop joins keys in one and ends the
whole part of a number in the other.

## Main definitions

* `Toml.Token` : the units of a document.
* `Toml.tokens?` : the tokens of a text, if it has any sense as such.
-/

namespace DocMarkup.Toml

/-- A unit of a document. -/
inductive Token where
  /-- A space or a tab. -/
  | blank (c : Char)
  | comment
  | newline
  | equals
  | stop
  | comma
  | openBracket
  | closeBracket
  | openBrace
  | closeBrace
  /-- A string, and whether it stood between three marks. -/
  | quoted (triple : Bool) (text : String)
  /-- A run of any other characters. -/
  | word (cs : List Char)
  deriving DecidableEq, Repr

/-- The token that a single character makes. -/
def Token.ofChar? (c : Char) : Option Token :=
  match c with
  | ' ' | '\t' => some (.blank c)
  | '\n' => some .newline
  | '=' => some .equals
  | '.' => some .stop
  | ',' => some .comma
  | '[' => some .openBracket
  | ']' => some .closeBracket
  | '{' => some .openBrace
  | '}' => some .closeBrace
  | _ => none

/-- Whether a character goes on with a word. -/
def isWordChar (c : Char) : Bool :=
  (Token.ofChar? c).isNone && c ≠ '\r' && c ≠ '#' && c ≠ '"' && c ≠ '\''

/-- Whether a character goes on with a comment. -/
def isCommentChar (c : Char) : Bool := c ≠ '\n' && c ≠ '\r'

/-- The token that starts with `c`, and the text after it. -/
def token? (c : Char) (s : List Char) : Option (Token × List Char) :=
  match Token.ofChar? c with
  | some t => some (t, s)
  | none =>
    match c with
    | '\r' =>
      match s with
      | '\n' :: rest => some (.newline, rest)
      | _ => none
    | '#' =>
      if (s.takeWhile isCommentChar).all isPlain then some (.comment, s.dropWhile isCommentChar)
      else none
    | '"' | '\'' => do
      let (q, start) := Quotation.ofMark c s
      let (raw, rest) ← q.body? start
      return (.quoted q.triple (String.ofList (← q.text? raw)), rest)
    | c => some (.word (c :: s.takeWhile isWordChar), s.dropWhile isWordChar)

theorem length_token? {c : Char} {s rest : List Char} {t : Token}
    (h : token? c s = some (t, rest)) : rest.length ≤ s.length := by
  have hstring (c : Char) (h : (do
      let (q, start) := Quotation.ofMark c s
      let (raw, rest) ← q.body? start
      return (Token.quoted q.triple (String.ofList (← q.text? raw)), rest)) = some (t, rest)) :
      rest.length ≤ s.length := by
    simp only [bind, Option.bind_eq_some_iff, pure, Option.some.injEq, Prod.mk.injEq] at h
    obtain ⟨⟨raw, after⟩, hb, _, _, _, rfl⟩ := h
    exact Nat.le_of_lt (Nat.lt_of_lt_of_le (Quotation.length_body? hb)
      (Quotation.length_ofMark c s))
  unfold token? at h
  split at h
  · simp only [Option.some.injEq, Prod.mk.injEq] at h
    exact h.2 ▸ Nat.le_refl _
  · split at h
    · split at h
      · simp only [Option.some.injEq, Prod.mk.injEq] at h
        simp [← h.2]
      · simp at h
    · split at h
      · simp only [Option.some.injEq, Prod.mk.injEq] at h
        exact h.2 ▸ (List.dropWhile_sublist _).length_le
      · simp at h
    · exact hstring _ h
    · exact hstring _ h
    · simp only [Option.some.injEq, Prod.mk.injEq] at h
      exact h.2 ▸ (List.dropWhile_sublist _).length_le

/-- The tokens of a text; none where a comment or a string holds what it must not, or a string does
not end. -/
def tokens? (s : List Char) : Option (List Token) :=
  match s with
  | [] => some []
  | c :: s =>
    match h : token? c s with
    | none => none
    | some (t, rest) =>
      have : rest.length < s.length + 1 := Nat.lt_succ_of_le (length_token? h)
      (tokens? rest).map (t :: ·)
termination_by s.length

namespace Token

/-- Whether a token is a space, a tab or a comment. -/
def isBlank : Token → Bool
  | blank _ | comment => true
  | _ => false

/-- Whether a token only separates others: a blank one or a line end. -/
def isGap (t : Token) : Bool := t.isBlank || t = newline

/-- The bracket nesting after a token, if it does not close what was never opened. The two kinds
of brackets count alike. -/
def nesting? (depth : Nat) : Token → Option Nat
  | openBracket | openBrace => some (depth + 1)
  | closeBracket | closeBrace => if depth = 0 then none else some (depth - 1)
  | _ => some depth

/-- The pieces between the occurrences of `sep` that stand outside all brackets; none where
brackets do not balance. -/
def pieces? (sep : Token) : Nat → List Token → Option (List (List Token))
  | 0, [] => some [[]]
  | _ + 1, [] => none
  | depth, t :: rest =>
    if depth = 0 ∧ t = sep then (pieces? sep 0 rest).map ([] :: ·)
    else do
      match ← pieces? sep (← t.nesting? depth) rest with
      | [] => none
      | piece :: pieces => return (t :: piece) :: pieces

/-- The tokens without those of a class at both ends. -/
def trim (p : Token → Bool) (ts : List Token) : List Token :=
  ((ts.dropWhile p).reverse.dropWhile p).reverse

/-- The tokens between a first and a last one. -/
def between? (first last : Token) : List Token → Option (List Token)
  | t :: rest => if t = first ∧ rest.getLast? = some last then some rest.dropLast else none
  | [] => none

end Token

end DocMarkup.Toml
