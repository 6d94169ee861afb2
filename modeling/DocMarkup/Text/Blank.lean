/-!
# Blank characters

The characters of the Unicode property `White_Space`, and cutting them off the ends of a text.
Zero-width characters, the byte order mark and the separators U+001C to U+001F are not blank.

## Main definitions

* `Text.isBlank` : the property.
* `Text.trimStart`, `Text.trimEnd`, `Text.trim` : a text without the blanks at its ends.
-/

namespace DocMarkup.Text

/-- The property `White_Space`. -/
def isBlank (c : Char) : Bool :=
  let n := c.toNat
  (0x9 ≤ n && n ≤ 0xd) || n == 0x20 || n == 0x85 || n == 0xa0 || n == 0x1680 ||
    (0x2000 ≤ n && n ≤ 0x200a) || n == 0x2028 || n == 0x2029 || n == 0x202f || n == 0x205f ||
    n == 0x3000

/-- The text from its first character on that is not blank. -/
def trimStart (s : List Char) : List Char := s.dropWhile isBlank

/-- The text up to its last character that is not blank. -/
def trimEnd (s : List Char) : List Char := (s.reverse.dropWhile isBlank).reverse

/-- The text without the blanks at both ends. -/
def trim (s : List Char) : List Char := trimEnd (trimStart s)

/-- Whether every character is blank. -/
def allBlank (s : List Char) : Bool := s.all isBlank

end DocMarkup.Text
