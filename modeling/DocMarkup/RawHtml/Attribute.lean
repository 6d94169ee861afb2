import DocMarkup.RawHtml.Entity
import DocMarkup.Text.Blank
import DocMarkup.Text.Pattern

/-!
# Attributes in a start tag

The attribute text of a start tag as names and values: the matches of a pattern, and nothing of what
stands between them. The pattern is a name, which takes a value only where an equals sign and a
complete value follow, and has the empty value otherwise.

## Main definitions

* `RawHtml.attributePattern` : the pattern of an attribute.
* `RawHtml.attributes` : the attributes of a text, in order.
-/

namespace DocMarkup.RawHtml

open Text (Groups Pattern)

/-- Characters that separate attributes and belong to no name. -/
def isDelimiter (c : Char) : Bool :=
  Text.isBlank c || c = '"' || c = '\'' || c = '=' || c = '<' || c = '>' || c = '`' || c = '/'

/-- Characters of a value without quotation marks: a slash too. -/
def isBareChar (c : Char) : Bool := !isDelimiter c || c = '/'

/-- A value between two quotation marks. -/
def quotedPattern (i : Nat) (mark : Char) : Pattern :=
  .seq (.one (· = mark)) (.seq (.group i (.many (· ≠ mark))) (.one (· = mark)))

/-- A value between quotation marks of either kind, or else a run of characters. -/
def valuePattern : Pattern :=
  .alt (quotedPattern 2 '"') (.alt (quotedPattern 3 '\'') (.group 4 (.many1 isBareChar)))

/-- A value behind an equals sign, which may have blanks around it. -/
def assignmentPattern : Pattern :=
  .seq (.many Text.isBlank)
    (.seq (.one (· = '=')) (.seq (.many Text.isBlank) valuePattern))

/-- A name and, if one follows, its value. -/
def attributePattern : Pattern :=
  .seq (.group 1 (.many1 fun c => !isDelimiter c)) (.maybe assignmentPattern)

/-- A name as it is kept: in small letters. -/
def lowered (name : List Char) : String := String.ofList (name.map Char.toLower)

/-- The attribute that a match of the pattern stands for. The value is that of the group that has
matched, and empty if none has. -/
def attributeOf (groups : Groups) : String × String :=
  let value := (groups.lookup 2).or ((groups.lookup 3).or (groups.lookup 4))
  (lowered ((groups.lookup 1).getD []), String.ofList (Entity.decodeChars (value.getD [])))

/-- The attributes of an attribute text, in order. -/
def attributeList (s : List Char) : List (String × String) :=
  (attributePattern.findAll s).map attributeOf

/-- The attributes of an attribute text, in order. -/
def attributes (s : String) : List (String × String) := attributeList s.toList

end DocMarkup.RawHtml
