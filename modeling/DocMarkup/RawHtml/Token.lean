import DocMarkup.RawHtml.Attribute
import DocMarkup.Text.Split

/-!
# Tokens of raw HTML

Raw HTML as texts, start tags and end tags. Comments are passed over. A `<` that begins neither a
complete tag nor a complete comment is a token of its own, so that it can be kept as text.

## Main definitions

* `RawHtml.Token` : the tokens.
* `RawHtml.piece` : the first piece of a text and what it is.
* `RawHtml.tokens` : the tokens of a text.
-/

namespace DocMarkup.RawHtml

/-- A unit of raw HTML. Names are in small letters; character references are still in place. -/
inductive Token where
  | text (s : List Char)
  /-- A `<` that opens nothing. -/
  | lessThan
  | startTag (name attributes : List Char) (selfClosing : Bool)
  | endTag (name : List Char)
  deriving DecidableEq, Repr

/-- Characters of a tag name. -/
def isNameChar (c : Char) : Bool := c.isAlphanum || c = '_' || c = ':' || c = '-'

/-- The start tag with the given inside. A slash that is the last character other than blanks
closes the element at once; without it the blanks at the end belong to the attribute text. -/
def startTag (inside : List Char) : Token :=
  let name := (inside.takeWhile isNameChar).map Char.toLower
  let attributes := inside.dropWhile isNameChar
  match (attributes.reverse.dropWhile Text.isBlank) with
  | '/' :: kept => .startTag name kept.reverse true
  | _ => .startTag name attributes false

/-- The end tag with the given inside after its slash. Only blanks may follow the name: anything
else makes a text of the whole tag. -/
def endTag (inside : List Char) : Token :=
  if Text.allBlank (inside.dropWhile isNameChar) then
    .endTag ((inside.takeWhile isNameChar).map Char.toLower)
  else .text ('<' :: '/' :: inside ++ ['>'])

/-- The text after the next end of a comment. -/
def afterComment? : List Char → Option (List Char)
  | [] => none
  | '-' :: '-' :: '>' :: rest => some rest
  | _ :: rest => afterComment? rest

/-- The token of a tag that must end at the next `>`, and the text after it. -/
def tag? (make : List Char → Token) (s : List Char) : Option (Token × List Char) :=
  (Text.cut? '>' s).map fun p => (make p.1, p.2)

/-- What a `<` begins, with the text after it: a token, or nothing for a comment. `s` stands after
the `<`. -/
def markup? (s : List Char) : Option (Option Token × List Char) :=
  match s with
  | '!' :: '-' :: '-' :: inside => (afterComment? inside).map fun rest => (none, rest)
  | '/' :: c :: inside =>
    if c.isAlpha then (tag? endTag (c :: inside)).map fun p => (some p.1, p.2) else none
  | c :: inside =>
    if c.isAlpha then (tag? startTag (c :: inside)).map fun p => (some p.1, p.2) else none
  | [] => none

/-- The first piece of a text that starts with `c`: its token, none for a comment, and the text
after it. -/
def piece (c : Char) (rest : List Char) : Option Token × List Char :=
  if c = '<' then (markup? rest).getD (some .lessThan, rest)
  else (some (.text (c :: rest.takeWhile (· ≠ '<'))), rest.dropWhile (· ≠ '<'))

theorem length_afterComment? {s rest : List Char} (h : afterComment? s = some rest) :
    rest.length ≤ s.length := by
  fun_induction afterComment? s with
  | case1 => simp at h
  | case2 => simp_all; omega
  | case3 c s _ ih => exact Nat.le_succ_of_le (ih h)

theorem length_tag? {make : List Char → Token} {s rest : List Char} {t : Token}
    (h : tag? make s = some (t, rest)) : rest.length ≤ s.length := by
  obtain ⟨p, hp, he⟩ := Option.map_eq_some_iff.1 h
  rw [(Text.cut?_eq_some_iff.1 hp).1, ← (Prod.mk.inj he).2]
  simp only [List.length_append, List.length_cons]
  omega

theorem length_markup? {s rest : List Char} {t : Option Token}
    (h : markup? s = some (t, rest)) : rest.length ≤ s.length := by
  unfold markup? at h
  split at h
  · obtain ⟨r, hr, he⟩ := Option.map_eq_some_iff.1 h
    have := length_afterComment? hr
    rw [← (Prod.mk.inj he).2]
    simp only [List.length_cons]
    omega
  · split at h
    · obtain ⟨p, hp, he⟩ := Option.map_eq_some_iff.1 h
      rw [← (Prod.mk.inj he).2]
      exact Nat.le_succ_of_le (length_tag? hp)
    · simp at h
  · split at h
    · obtain ⟨p, hp, he⟩ := Option.map_eq_some_iff.1 h
      rw [← (Prod.mk.inj he).2]
      exact length_tag? hp
    · simp at h
  · simp at h

/-- A piece is not empty. -/
theorem length_piece (c : Char) (rest : List Char) : (piece c rest).2.length ≤ rest.length := by
  unfold piece
  split
  · cases h : markup? rest with
    | none => exact Nat.le_refl _
    | some p => exact length_markup? (t := p.1) h
  · exact (List.dropWhile_sublist _).length_le

/-- The tokens of a text, piece by piece. -/
def tokens (s : List Char) : List Token :=
  match s with
  | [] => []
  | c :: rest =>
    match (piece c rest).1 with
    | some t => t :: tokens (piece c rest).2
    | none => tokens (piece c rest).2
termination_by s.length
decreasing_by all_goals exact Nat.lt_succ_of_le (length_piece c rest)

end DocMarkup.RawHtml
