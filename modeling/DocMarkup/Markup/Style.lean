import DocMarkup.OrderedMap
import DocMarkup.Text.Blank
import DocMarkup.Text.Split

/-!
# Inline styles

An inline style sets CSS properties to values. Properties are kept in camel case, as scripts name
them, in the order of their first setting; they are read from hyphenated declarations and written
as such.

## Main definitions

* `Style` : the properties in order.
* `Style.camelCase`, `Style.hyphenate` : the two spellings of a property.
* `Style.parse?` : the style of a declaration list.
* `Style.css` : the declaration list of a style.
-/

namespace DocMarkup

/-- Values of CSS properties by their camel-case names. -/
abbrev Style := OrderedMap String String

namespace Style

/-- A character in front of a text; a hyphen in front of a small letter makes it a capital. -/
def joinWord (c : Char) : List Char → List Char
  | [] => [c]
  | d :: rest => if c = '-' ∧ d.isLower then d.toUpper :: rest else c :: d :: rest

/-- Every hyphen in front of a small letter is dropped and the letter made a capital. -/
def joinWords (s : List Char) : List Char := s.foldr joinWord []

/-- The camel-case name of a written property: blanks at the ends and hyphens in front do not
count. -/
def camelCase (s : List Char) : List Char :=
  joinWords ((Text.trim s).dropWhile (· = '-'))

/-- The written name of a camel-case property: a hyphen before each word. -/
def hyphenate (s : List Char) : List Char :=
  s.flatMap fun c => if c.isUpper then ['-', c.toLower] else [c]

/-- The property and value of a declaration, split at its first colon. A declaration without a
colon, property or value is none. -/
def declaration? (s : List Char) : Option (String × String) :=
  match Text.cut? ':' s with
  | none => none
  | some (p, v) =>
    let name := camelCase p
    let value := Text.trim v
    if name = [] ∨ value = [] then none else some (String.ofList name, String.ofList value)

/-- The style of a list of declarations between semicolons, if it sets anything. -/
def parse? (s : String) : Option Style :=
  let style : Style := OrderedMap.ofList ((Text.split ';' s.toList).filterMap declaration?)
  if style.isEmpty then none else some style

/-- A property and its value as a declaration. -/
def declaration (e : String × String) : List Char :=
  hyphenate e.1.toList ++ ':' :: Text.trim e.2.toList

/-- The style as a declaration list. -/
def css (s : Style) : String :=
  String.ofList ((s.entries.map declaration).intersperse [';']).flatten

end Style

end DocMarkup
