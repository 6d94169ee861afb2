import DocMarkup.Text.Blank
import DocMarkup.Tree.Node

/-!
# Glyphs and plain text

The characters that punctuation is shown as, and the plain text of a piece of a document, as it
stands in the alternative text of an image.

## Main definitions

* `Glyph.ofType` : the glyph of a type of smart punctuation.
* `Glyph.quotes?` : the quotation marks around quoted content.
* `Node.plainText` : the plain text of nodes.
-/

namespace DocMarkup

namespace Glyph

/-- The glyph of a type of smart punctuation; the written text for a type that has none. -/
def ofType (type text : String) : String :=
  match type with
  | "left_double_quote" => "\u201c"
  | "right_double_quote" => "\u201d"
  | "left_single_quote" => "\u2018"
  | "right_single_quote" => "\u2019"
  | "em_dash" => "\u2014"
  | "en_dash" => "\u2013"
  | "ellipses" => "\u2026"
  | _ => text

/-- The marks before and after quoted content. -/
def quotes? : ContainerKind → Option (String × String)
  | .doubleQuoted => some ("\u201c", "\u201d")
  | .singleQuoted => some ("\u2018", "\u2019")
  | _ => none

/-- A space at which no line may break. -/
def noBreakSpace : String := "\u00a0"

end Glyph

namespace Node

/-- Content between marks, without blanks at its ends. -/
def quotedText (marks : String × String) (content : List Char) : List Char :=
  marks.1.toList ++ Text.trim content ++ marks.2.toList

mutual

/-- The plain text of a node: breaks are blanks, symbols stand between colons, and quoted content
has its marks. -/
def plainChars : Node → List Char
  | literal _ text _ => text.toList
  | codeBlock _ text _ => text.toList
  | raw _ _ text _ => text.toList
  | symb name _ => ':' :: name.toList ++ [':']
  | smartPunctuation type text _ => (Glyph.ofType type text).toList
  | leaf k _ =>
    match k with
    | .nonBreakingSpace => Glyph.noBreakSpace.toList
    | .softBreak | .softbreak => [' ']
    | .hardBreak | .hardbreak => ['\n']
    | .thematicBreak => []
  | container k kids .. =>
    match Glyph.quotes? k with
    | some marks => quotedText marks (plainCharsAll kids)
    | none => plainCharsAll kids
  | doc kids .. => plainCharsAll kids
  | heading _ kids .. => plainCharsAll kids
  | row _ kids _ => plainCharsAll kids
  | cell _ _ kids _ => plainCharsAll kids
  | footnote ⟨_, kids, _⟩ => plainCharsAll kids
  | link _ _ _ kids _ => plainCharsAll kids
  | list _ _ _ kids _ => plainCharsAll kids
  | orderedList _ _ _ kids _ => plainCharsAll kids
  | taskListItem _ kids _ => plainCharsAll kids
  | footnoteReference .. | unknown => []

/-- The plain text of nodes side by side. -/
def plainCharsAll : List Node → List Char
  | [] => []
  | n :: rest => n.plainChars ++ plainCharsAll rest

end

/-- The plain text of nodes, without blanks at its ends. -/
def plainText (nodes : List Node) : String := String.ofList (Text.trim (plainCharsAll nodes))

end Node

end DocMarkup
