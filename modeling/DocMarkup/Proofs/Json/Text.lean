import DocMarkup.Json.Lexeme

/-!
# JSON texts

What a JSON text of a value is, by the grammar alone: the tokens of the value in order, each in one
of its written forms and with any blanks around it. A string may write a character as it is or by
an escape, a number may have any numeral that stands for it.

## Main definitions

* `Json.StringText`, `Json.NumeralText`, `Json.TokenText` : the written forms of a token.
* `Json.TokensText` : the texts of tokens with blanks between them.
* `Json.Value.tokens` : the tokens of a value.
* `Json.Value.IsText` : a text of a value.
-/

namespace DocMarkup.Json

/-! ### The grammar -/

/-- Four hexadecimal digits write a number. -/
inductive Hex4 : List Char → Nat → Prop
  | mk {a b c d : Char} {w x y z : Nat} (ha : Text.digitValue? a = some w)
      (hb : Text.digitValue? b = some x) (hc : Text.digitValue? c = some y)
      (hd : Text.digitValue? d = some z) : Hex4 [a, b, c, d] (((w * 16 + x) * 16 + y) * 16 + z)

/-- The letters that stand for a character after a backslash, each with the character. -/
def shortEscapes : List (Char × Char) :=
  [('"', '"'), ('\\', '\\'), ('/', '/'), ('b', '\x08'), ('f', '\x0c'), ('n', '\n'), ('r', '\r'),
    ('t', '\t')]

/-- The written forms of characters inside a string. -/
inductive StringText : List Char → List Char → Prop
  | nil : StringText [] []
  | char {c : Char} {cs text : List Char} (hcontrol : 0x20 ≤ c.toNat) (hquote : c ≠ '"')
      (hbackslash : c ≠ '\\') (h : StringText cs text) : StringText (c :: cs) (c :: text)
  | short {letter c : Char} {cs text : List Char} (hletter : (letter, c) ∈ shortEscapes)
      (h : StringText cs text) : StringText (c :: cs) ('\\' :: letter :: text)
  /-- A character by its number. -/
  | unit {c : Char} {digits cs text : List Char} (hdigits : Hex4 digits c.toNat)
      (h : StringText cs text) : StringText (c :: cs) ('\\' :: 'u' :: (digits ++ text))
  /-- A character by the two units of a surrogate pair. -/
  | pair {c : Char} {high low cs text : List Char} {m n : Nat} (hhigh : Hex4 high (0xd800 + m))
      (hm : m < 0x400) (hlow : Hex4 low (0xdc00 + n)) (hn : n < 0x400)
      (hc : c.toNat = 0x10000 + m * 0x400 + n) (h : StringText cs text) :
      StringText (c :: cs) ('\\' :: 'u' :: (high ++ '\\' :: 'u' :: (low ++ text)))

/-- Digits, at least one. -/
def IsDigits (ds : List Char) : Prop := ds ≠ [] ∧ ∀ c ∈ ds, c.isDigit = true

/-- The written forms of a fraction. -/
inductive FractionText : Option (List Char) → List Char → Prop
  | none : FractionText none []
  | some {ds : List Char} (h : IsDigits ds) : FractionText (some ds) ('.' :: ds)

/-- The written forms of the sign of an exponent. -/
inductive SignText : Bool → List Char → Prop
  | none : SignText false []
  | plus : SignText false ['+']
  | minus : SignText true ['-']

/-- The written forms of an exponent. -/
inductive ExponentText : Option (Bool × List Char) → List Char → Prop
  | none : ExponentText none []
  | some {e : Char} {down : Bool} {sign ds : List Char} (he : e = 'e' ∨ e = 'E')
      (hsign : SignText down sign) (h : IsDigits ds) :
      ExponentText (some (down, ds)) (e :: (sign ++ ds))

/-- The written forms of a number by its parts. No zero stands before another digit. -/
structure NumeralText (m : Numeral) (fraction exponent : List Char) : Prop where
  whole : IsDigits m.whole
  no_zero : ∀ c rest, m.whole ≠ '0' :: c :: rest
  fraction : FractionText m.fraction fraction
  exponent : ExponentText m.exponent exponent

/-- The written forms of a token. -/
inductive TokenText : Token → List Char → Prop
  | openArray : TokenText .openArray ['[']
  | closeArray : TokenText .closeArray [']']
  | openObject : TokenText .openObject ['{']
  | closeObject : TokenText .closeObject ['}']
  | comma : TokenText .comma [',']
  | colon : TokenText .colon [':']
  | null : TokenText .null ['n', 'u', 'l', 'l']
  | true : TokenText (.bool true) ['t', 'r', 'u', 'e']
  | false : TokenText (.bool false) ['f', 'a', 'l', 's', 'e']
  | string {s : String} {text : List Char} (h : StringText s.toList text) :
      TokenText (.string s) ('"' :: (text ++ ['"']))
  | number {n : Number} {m : Numeral} {fraction exponent : List Char} (hn : m.number? = some n)
      (h : NumeralText m fraction exponent) :
      TokenText (.number n) ((if m.negative then ['-'] else []) ++ m.whole ++ fraction ++ exponent)

/-- The texts of tokens in order, with blanks around them. -/
inductive TokensText : List Token → List Char → Prop
  | nil {blanks : List Char} (hblanks : ∀ c ∈ blanks, isSpace c = true) : TokensText [] blanks
  | cons {t : Token} {ts : List Token} {blanks text rest : List Char}
      (hblanks : ∀ c ∈ blanks, isSpace c = true) (ht : TokenText t text)
      (h : TokensText ts rest) : TokensText (t :: ts) (blanks ++ (text ++ rest))

namespace Value

mutual

/-- The tokens of a value. -/
def tokens : Value → List Token
  | null => [.null]
  | bool b => [.bool b]
  | number n => [.number n]
  | string s => [.string s]
  | array [] => [.openArray, .closeArray]
  | array (v :: rest) => .openArray :: (v.tokens ++ moreItems rest)
  | object [] => [.openObject, .closeObject]
  | object ((k, v) :: rest) =>
    .openObject :: .string k :: .colon :: (v.tokens ++ moreMembers rest)

/-- The tokens from after an item to the end of the array. -/
def moreItems : List Value → List Token
  | [] => [.closeArray]
  | v :: rest => .comma :: (v.tokens ++ moreItems rest)

/-- The tokens from after a member to the end of the object. -/
def moreMembers : List (String × Value) → List Token
  | [] => [.closeObject]
  | (k, v) :: rest => .comma :: .string k :: .colon :: (v.tokens ++ moreMembers rest)

end

/-- The text is a JSON text of the value. -/
def IsText (v : Value) (s : String) : Prop := TokensText v.tokens s.toList

end Value

end DocMarkup.Json
