import DocMarkup.Decimal.Natural
import DocMarkup.Markup.Html

/-!
# Writing markup

The static markup of an output tree. Texts and attribute values are escaped so that neither can
end what it stands in. Properties are written under their attribute names, in their order; a
property whose name cannot be written, a flag that is off and an empty style are left out.

## Main definitions

* `Html.escape` : the escaped form of a text.
* `Html.attribute?` : the attribute that is written for a property.
* `Html.markup` : the markup of a tree.
-/

namespace DocMarkup.Html

/-- The escaped form of a character. -/
def escapeChar (c : Char) : List Char :=
  match c with
  | '&' => ['&', 'a', 'm', 'p', ';']
  | '<' => ['&', 'l', 't', ';']
  | '>' => ['&', 'g', 't', ';']
  | '"' => ['&', 'q', 'u', 'o', 't', ';']
  | '\'' => ['&', '#', 'x', '2', '7', ';']
  | c => [c]

/-- The escaped form of a text. -/
def escapeChars (s : List Char) : List Char := s.flatMap escapeChar

/-- The escaped form of a text. -/
def escape (s : String) : String := String.ofList (escapeChars s.toList)

/-- The attribute name of a property. -/
def attributeName (name : String) : String :=
  if name = "className" then "class" else if name = "htmlFor" then "for" else name

/-- Whether the name can be written: a letter, `_` or `:`, then these, digits, `-` and `.`. -/
def isAttributeName (s : String) : Bool :=
  match s.toList with
  | [] => false
  | c :: rest =>
    (c.isAlpha || c = '_' || c = ':') &&
      rest.all fun d => d.isAlphanum || d = '-' || d = '_' || d = ':' || d = '.'

/-- The attribute value of a property value, if it has one. -/
def attributeValue? : PropValue → Option String
  | .text s => some s
  | .flag true => some ""
  | .flag false => none
  | .number n => some (Decimal.text n.toNat)
  | .style s => if s.isEmpty then none else some s.css

/-- The attribute that is written for a property, if one is. -/
def attribute? (e : String × PropValue) : Option (String × String) :=
  let name := attributeName e.1
  if isAttributeName name then (attributeValue? e.2).map fun v => (name, v) else none

/-- The attributes that are written for properties, in order. -/
def attributes (p : Props) : List (String × String) := p.entries.filterMap attribute?

/-- An attribute in a start tag. -/
def attributeChars (a : String × String) : List Char :=
  ' ' :: a.1.toList ++ '=' :: '"' :: escapeChars a.2.toList ++ ['"']

mutual

/-- The characters of the markup. -/
def chars : Html → List Char
  | text s => escapeChars s.toList
  | fragment _ kids => charsAll kids
  | element tag _ props kids =>
    '<' :: tag.toList ++ (attributes props).flatMap attributeChars ++
      if isVoid tag then ['/', '>']
      else '>' :: charsAll kids ++ '<' :: '/' :: tag.toList ++ ['>']

/-- The characters of the markup of trees side by side. -/
def charsAll : List Html → List Char
  | [] => []
  | h :: rest => h.chars ++ charsAll rest

end

/-- The static markup of a tree. -/
def markup (h : Html) : String := String.ofList h.chars

end DocMarkup.Html
