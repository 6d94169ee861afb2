import DocMarkup.Text.Digit

/-!
# Numbers in TOML

Whole numbers to base ten with a sign, and to bases two, eight and sixteen without one; numbers
with a fraction or an exponent; infinities and what is no number. Underscores may stand between
digits, and no zero before another digit.

The form of a number and its value are two things. A text may have the form of a number and no
value: its digits may be missing or be none of its base, or the number may be out of range. Such a
text does no harm to a document unless its value is asked for.

## Main definitions

* `Toml.Number` : what a text in the form of a number stands for.
* `Toml.Number.ofText?` : the number of a text, if it has the form of one.
-/

namespace DocMarkup.Toml

/-- What a text in the form of a number stands for. -/
inductive Number where
  | integer (n : Int)
  /-- A number with a fraction or an exponent, an infinity or what is no number, as written. -/
  | real (written : String)
  /-- The form of a number without a value. -/
  | void
  deriving DecidableEq, Repr

namespace Number

/-- Whether every underscore stands between two characters of a class, where `before` says whether
one of them stands before the text. -/
def isSpacedFrom (p : Char → Bool) : Bool → List Char → Bool
  | _, [] => true
  | before, '_' :: rest => before && rest.head?.any p && isSpacedFrom p false rest
  | _, c :: rest => isSpacedFrom p (p c) rest

/-- Whether every underscore stands between two characters of a class. -/
def isSpaced (p : Char → Bool) (s : List Char) : Bool := isSpacedFrom p false s

/-- A text without its underscores. -/
def joined (s : List Char) : List Char := s.filter (· ≠ '_')

/-- Whether a minus sign stands in front of a text, and the text after a sign. -/
def sign : List Char → Bool × List Char
  | '-' :: rest => (true, rest)
  | '+' :: rest => (false, rest)
  | s => (false, s)

/-- Whether a numeral starts with a zero that it does not need. -/
def isPadded : List Char → Bool
  | '0' :: _ :: _ => true
  | _ => false

/-! ### Whole numbers -/

/-- The whole number that digits to a base write. It has 128 bits at most. -/
def ofDigits (base : Nat) (negative : Bool) (ds : List Char) : Number :=
  let n : Int := if negative then -Text.numeral base ds else Text.numeral base ds
  if ds ≠ [] ∧ ds.all (Text.isDigitTo base) ∧ n.toNat < 1 <<< 128 ∧ (-n).toNat ≤ 1 <<< 127 then
    integer n
  else void

/-- The number after the mark of a base. -/
def marked? (base : Nat) (s : List Char) : Option Number :=
  let isDigit := Text.isDigitTo base
  if s.all (fun c => c = '_' || isDigit c) && isSpaced isDigit s then
    some (ofDigits base false (joined s))
  else none

/-- Whether a character tells that a text is no whole number. -/
def isForeign (c : Char) : Bool := c = '.' || c = 'e' || c = 'E' || c = ' ' || c = '\t'

/-- The whole number to base ten of a text. After the first underscore, only what stands around
underscores has to look like a digit to some base. -/
def whole? (s : List Char) : Option Number :=
  let (negative, body) := sign s
  let rest := body.dropWhile Char.isDigit
  if body ≠ [] ∧ rest.head?.all (· = '_') ∧ !rest.any isForeign ∧ !isPadded body ∧
      isSpaced (Text.isDigitTo 16) body then
    some (ofDigits 10 negative (joined body))
  else none

/-! ### Other numbers -/

/-- The digits at the start of a text, at least one, with the underscores among them, and the text
after them. -/
def digits? (s : List Char) : Option (List Char × List Char) :=
  let run := s.takeWhile fun c => c.isDigit || c = '_'
  if (joined run).isEmpty then none else some (run, s.drop run.length)

/-- The digits after a point, if there is one, and the text after them. -/
def fraction? : List Char → Option (List Char × List Char)
  | '.' :: rest => do
    let (ds, rest) ← digits? rest
    return (joined ds, rest)
  | s => some ([], s)

/-- The exponent that a text consists of; nothing stands for zero. -/
def exponent? : List Char → Option Int
  | [] => some 0
  | c :: s => do
    let (negative, s) := sign s
    let (ds, rest) ← digits? s
    if (c = 'e' ∨ c = 'E') ∧ rest = [] then
      let n : Int := Text.numeral 10 (joined ds)
      return if negative then -n else n
    else none

/-- Whether the number that digits write, times a power of ten, is out of the range of doubles:
nearer to the next power of two than to the largest of them, or as near. -/
def isOutOfRange (ds : List Char) (e : Int) : Bool :=
  let ds := ds.dropWhile (· = '0')
  let n := Text.numeral 10 ds
  let bound : Nat := 1 <<< 1024 - 1 <<< 970
  let places := ds.length + e
  if ds.isEmpty || places < 309 then false
  else if 309 < places then true
  else if 0 ≤ e then bound ≤ n * Nat.pow 10 e.toNat
  else bound * Nat.pow 10 (-e).toNat ≤ n

/-- The number with a fraction or an exponent of a text. -/
def scientific? (s : List Char) : Option Number := do
  let body := (sign s).2
  let (run, rest) ← digits? body
  let (fraction, tail) ← fraction? rest
  let e ← exponent? tail
  if rest.isEmpty || isPadded run || !isSpaced Char.isDigit body then none
  else if isOutOfRange (joined run ++ fraction) (e - fraction.length) then some void
  else some (real (String.ofList s))

/-- The number of a text, if it has the form of one. -/
def ofText? (s : List Char) : Option Number :=
  match s with
  | '0' :: 'x' :: rest => marked? 16 rest
  | '0' :: 'o' :: rest => marked? 8 rest
  | '0' :: 'b' :: rest => marked? 2 rest
  | s =>
    let body := (sign s).2
    if body = ['i', 'n', 'f'] ∨ body = ['n', 'a', 'n'] then some (real (String.ofList s))
    else (whole? s).orElse fun _ => scientific? s

end Number

end DocMarkup.Toml
