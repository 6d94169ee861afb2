/-!
# Patterns of text

Patterns that are searched for in a text. The first match from the left counts, and of the matches
that start there the one that is preferred: a repetition takes as many characters as it can, and of
two alternatives the first is taken if what follows can be matched at all. What the groups of a
pattern have matched is kept by their numbers.

## Main definitions

* `Text.Pattern` : the patterns.
* `Text.Pattern.match?` : how a pattern is matched in front of what follows.
* `Text.Pattern.findAll` : the matches in a text, one after the other.
-/

namespace DocMarkup.Text

/-- A pattern of characters. -/
inductive Pattern where
  /-- A character of a class. -/
  | one (p : Char → Bool)
  /-- Characters of a class, as many as possible, maybe none. -/
  | many (p : Char → Bool)
  | seq (a b : Pattern)
  /-- The first pattern if possible, and else the second. -/
  | alt (a b : Pattern)
  /-- The pattern if possible, and else nothing. -/
  | maybe (a : Pattern)
  /-- A pattern whose match is kept by a number. -/
  | group (i : Nat) (a : Pattern)

/-- What groups have matched, by their numbers. -/
abbrev Groups := List (Nat × List Char)

namespace Pattern

variable {α : Type}

/-- Characters of a class, as many as possible and at least one. -/
def many1 (p : Char → Bool) : Pattern := .seq (.one p) (.many p)

/-- As many characters of a class as possible with `next` behind them. -/
def takeMany (p : Char → Bool) (next : List Char → Option α) : List Char → Option α
  | [] => next []
  | c :: rest => if p c then takeMany p next rest <|> next (c :: rest) else next (c :: rest)

/-- Matches a pattern at the start of a text so that what follows succeeds: `next` on the groups
and the rest of the text. -/
def match? (pattern : Pattern) (groups : Groups) (s : List Char)
    (next : Groups → List Char → Option α) : Option α :=
  match pattern with
  | one p =>
    match s with
    | [] => none
    | c :: rest => if p c then next groups rest else none
  | many p => takeMany p (next groups) s
  | seq a b => a.match? groups s fun groups rest => b.match? groups rest next
  | alt a b => a.match? groups s next <|> b.match? groups s next
  | maybe a => a.match? groups s next <|> next groups s
  | group i a => a.match? groups s fun groups rest =>
      next ((i, s.take (s.length - rest.length)) :: groups) rest

/-- The preferred match at the start of a text, with the text behind it. -/
def matchStart? (pattern : Pattern) (s : List Char) : Option (Groups × List Char) :=
  pattern.match? [] s fun groups rest => some (groups, rest)

/-- The groups of the matches in a text from a place on: each match is searched for behind the one
before it, and at least one character further. -/
def findFrom (pattern : Pattern) : Nat → List Char → List Groups
  | _, [] => []
  | skip + 1, _ :: rest => findFrom pattern skip rest
  | 0, c :: rest =>
    match pattern.matchStart? (c :: rest) with
    | some (groups, behind) => groups :: findFrom pattern (rest.length - behind.length) rest
    | none => findFrom pattern 0 rest

/-- The groups of the matches in a text, one after the other. -/
def findAll (pattern : Pattern) (s : List Char) : List Groups := pattern.findFrom 0 s

end Pattern

end DocMarkup.Text
