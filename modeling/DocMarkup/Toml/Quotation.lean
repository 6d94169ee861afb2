import DocMarkup.Text.Digit

/-!
# TOML strings

A string stands between single or double quotation marks, or between three of either. Between
three it may span lines, and it may end in one or two marks of its own. Only double marks know
escapes. The text is cut at its closing marks first and read afterwards, so what is wrong inside a
string never moves its end.

## Main definitions

* `Toml.Quotation` : a kind of string.
* `Toml.Quotation.body?` : the raw text up to the closing marks.
* `Toml.Quotation.text?` : what a raw text stands for.
-/

namespace DocMarkup.Toml

/-- A kind of string. -/
structure Quotation where
  /-- Whether it stands between double marks. -/
  double : Bool
  /-- Whether there are three marks at either end. -/
  triple : Bool
  deriving DecidableEq, Repr

/-- Whether a character may stand for itself in strings and comments. -/
def isPlain (c : Char) : Bool := c = '\t' || (' ' ≤ c && c ≠ '\x7f')

namespace Quotation

/-- The mark of the kind. -/
def mark (q : Quotation) : Char := if q.double then '"' else '\''

/-- The raw text before the closing mark, and the text after it. -/
def single? (double : Bool) (mark : Char) : List Char → Option (List Char × List Char)
  | [] => none
  | [c] => if c = mark then some ([], []) else none
  | c :: d :: rest =>
    if c = mark then some ([], d :: rest)
    else if double ∧ c = '\\' then
      (single? double mark rest).map fun p => (c :: d :: p.1, p.2)
    else (single? double mark (d :: rest)).map fun p => (c :: p.1, p.2)

/-- How many marks at the start belong to a string that three marks have closed just before. -/
def ownMarks (mark : Char) (s : List Char) : Nat := min 2 (s.takeWhile (· = mark)).length

/-- The raw text before three closing marks, and the text after them. -/
def triple? (double : Bool) (mark : Char) : List Char → Option (List Char × List Char)
  | a :: b :: c :: rest =>
    if a = mark ∧ b = mark ∧ c = mark then
      some (rest.take (ownMarks mark rest), rest.drop (ownMarks mark rest))
    else if double ∧ a = '\\' then
      (triple? double mark (c :: rest)).map fun p => (a :: b :: p.1, p.2)
    else (triple? double mark (b :: c :: rest)).map fun p => (a :: p.1, p.2)
  | _ => none

/-- The raw text of a string after its opening marks, and the text after its closing ones. -/
def body? (q : Quotation) (s : List Char) : Option (List Char × List Char) :=
  if q.triple then triple? q.double q.mark s else single? q.double q.mark s

/-- The kind of the string whose first mark stands before the text, and the text after its opening
marks. -/
def ofMark (mark : Char) (s : List Char) : Quotation × List Char :=
  match s with
  | a :: b :: rest =>
    if a = mark ∧ b = mark then (⟨mark = '"', true⟩, rest) else (⟨mark = '"', false⟩, s)
  | _ => (⟨mark = '"', false⟩, s)

/-- Whether every character may stand in a string, where `lines` tells whether line ends may. A
carriage return stands only at a line end. -/
def isClean (lines : Bool) : List Char → Bool
  | [] => true
  | '\r' :: '\n' :: rest => lines && isClean lines rest
  | '\n' :: rest => lines && isClean lines rest
  | c :: rest => isPlain c && isClean lines rest

/-- The character that a letter after a backslash stands for. -/
def escape? (c : Char) : Option Char :=
  match c with
  | '"' => some '"'
  | '\\' => some '\\'
  | 'b' => some '\x08'
  | 'e' => some '\x1b'
  | 'f' => some '\x0c'
  | 'n' => some '\n'
  | 'r' => some '\r'
  | 't' => some '\t'
  | _ => none

/-- How many hexadecimal digits follow a letter after a backslash. -/
def codeLength? (c : Char) : Option Nat :=
  match c with
  | 'x' => some 2
  | 'u' => some 4
  | 'U' => some 8
  | _ => none

/-- Spaces, tabs and line ends. -/
def isGap (c : Char) : Bool := c = ' ' || c = '\t' || c = '\n' || c = '\r'

/-- Whether nothing but spaces and tabs stands before the next line end. -/
def endsLine (s : List Char) : Bool :=
  match s.dropWhile fun c => c = ' ' || c = '\t' with
  | '\n' :: _ | '\r' :: '\n' :: _ => true
  | _ => false

/-- Where the reading of a raw text stands. -/
inductive Place where
  /-- Between characters. -/
  | text
  /-- In the gap that a backslash at a line end removes. -/
  | gap
  /-- After a backslash. -/
  | escape
  /-- Before the last digits of a code, with the number of those and the value of the others. -/
  | code (left value : Nat)

/-- The text that a raw text with escapes stands for. -/
def unescape (triple : Bool) : Place → List Char → Option (List Char)
  | .text, [] | .gap, [] => some []
  | .escape, [] | .code _ _, [] => none
  | .escape, c :: rest =>
    match escape? c, codeLength? c with
    | some d, _ => (unescape triple .text rest).map (d :: ·)
    | none, some n => unescape triple (.code n 0) rest
    | none, none => if triple && endsLine (c :: rest) then unescape triple .gap rest else none
  | .code left value, c :: rest => do
    let value := value * 16 + (← Text.digitValue? c)
    if left ≤ 1 then
      let d ← Text.scalar? value
      (unescape triple .text rest).map (d :: ·)
    else unescape triple (.code (left - 1) value) rest
  | .gap, c :: rest =>
    if isGap c then unescape triple .gap rest
    else if c = '\\' then unescape triple .escape rest
    else (unescape triple .text rest).map (c :: ·)
  | .text, c :: rest =>
    if c = '\\' then unescape triple .escape rest
    else (unescape triple .text rest).map (c :: ·)

/-- The text without a line end at its start. -/
def dropLineEnd : List Char → List Char
  | '\n' :: rest => rest
  | '\r' :: '\n' :: rest => rest
  | s => s

/-- The text that a raw text stands for. A line end right after three opening marks does not
count. -/
def text? (q : Quotation) (raw : List Char) : Option (List Char) :=
  let raw := if q.triple then dropLineEnd raw else raw
  if !isClean q.triple raw then none
  else if q.double then unescape q.triple .text raw
  else some raw

theorem length_single? {double : Bool} {mark : Char} {s raw rest : List Char}
    (h : single? double mark s = some (raw, rest)) : rest.length < s.length := by
  fun_induction single? double mark s generalizing raw with
  | case1 => simp at h
  | case2 => simp_all
  | case3 => simp at h
  | case4 => simp_all
  | case5 c d s _ _ ih =>
    obtain ⟨⟨a, b⟩, hp, he⟩ := Option.map_eq_some_iff.1 h
    cases he
    have : b.length < s.length := ih hp
    simp only [List.length_cons]
    omega
  | case6 c d s _ _ ih =>
    obtain ⟨⟨a, b⟩, hp, he⟩ := Option.map_eq_some_iff.1 h
    cases he
    exact Nat.lt_succ_of_lt (ih hp)

theorem length_triple? {double : Bool} {mark : Char} {s raw rest : List Char}
    (h : triple? double mark s = some (raw, rest)) : rest.length < s.length := by
  fun_induction triple? double mark s generalizing raw with
  | case1 =>
    simp only [Option.some.injEq, Prod.mk.injEq] at h
    simp only [← h.2, List.length_drop, List.length_cons]
    omega
  | case2 a b c s _ _ ih =>
    obtain ⟨⟨x, y⟩, hp, he⟩ := Option.map_eq_some_iff.1 h
    cases he
    have : y.length < (c :: s).length := ih hp
    simp only [List.length_cons] at this ⊢
    omega
  | case3 a b c s _ _ ih =>
    obtain ⟨⟨x, y⟩, hp, he⟩ := Option.map_eq_some_iff.1 h
    cases he
    exact Nat.lt_succ_of_lt (ih hp)
  | case4 => simp at h

theorem length_body? {q : Quotation} {s raw rest : List Char}
    (h : q.body? s = some (raw, rest)) : rest.length < s.length := by
  unfold body? at h
  split at h
  · exact length_triple? h
  · exact length_single? h

theorem length_ofMark (mark : Char) (s : List Char) : (ofMark mark s).2.length ≤ s.length := by
  unfold ofMark
  split
  · split
    · simp only [List.length_cons]; omega
    · exact Nat.le_refl _
  · exact Nat.le_refl _

end Quotation

end DocMarkup.Toml
