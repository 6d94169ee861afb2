/-!
# Kinds of nodes

Every node of a document tree has a kind, and so has the endnotes section that a rendered document
ends with. Kinds that carry the same data form one group. Six pairs of kinds are two spellings of
one thing; an override for one spelling serves the other where that has none of its own. The two
kinds of quotation serve each other in the same way.

## Main definitions

* `Kind` : the kinds, by groups, and `Kind.name`, the tag each is written with.
* `Kind.all` : every kind in the fixed order of the format.
* `Kind.ofName?` : the kind of a name.
* `Kind.alias?` : the kind that an override is borrowed from.
-/

namespace DocMarkup

/-- Kinds that hold children and two attribute dictionaries. -/
inductive ContainerKind where
  | sectionGroup
  | div
  | para
  | emph
  | strong
  | mark
  | highlighted
  | superscript
  | supe
  | subscript
  | insert
  | delete
  | span
  | table
  | caption
  | doubleQuoted
  | singleQuoted
  | listItem
  | definitionList
  | definitionListItem
  | term
  | definition
  | blockquote
  | blockQuote
  deriving DecidableEq, Repr

/-- Kinds that hold a text and nothing else of their own. -/
inductive LiteralKind where
  | inlineMath
  | displayMath
  | code
  | verbatim
  | url
  | email
  | str
  deriving DecidableEq, Repr

/-- Kinds that hold nothing of their own. -/
inductive LeafKind where
  | thematicBreak
  | nonBreakingSpace
  | softBreak
  | softbreak
  | hardBreak
  | hardbreak
  deriving DecidableEq, Repr

/-- Raw content between blocks or inside a line. -/
inductive RawKind where
  | block
  | inline
  deriving DecidableEq, Repr

/-- Links and images, which name their target alike. -/
inductive LinkKind where
  | link
  | image
  deriving DecidableEq, Repr

/-- Lists without numbers. -/
inductive ListKind where
  | bullet
  | task
  deriving DecidableEq, Repr

/-- A kind of node, or the endnotes section. -/
inductive Kind where
  | doc
  | container (k : ContainerKind)
  | heading
  | row
  | cell
  | footnoteReference
  | footnote
  | endnotes
  | smartPunctuation
  | literal (k : LiteralKind)
  | codeBlock
  | raw (k : RawKind)
  | symb
  | link (k : LinkKind)
  | list (k : ListKind)
  | orderedList
  | taskListItem
  | leaf (k : LeafKind)
  deriving DecidableEq, Repr

/-- The tag of a container. -/
def ContainerKind.name : ContainerKind → String
  | sectionGroup => "section"
  | div => "div"
  | para => "para"
  | emph => "emph"
  | strong => "strong"
  | mark => "mark"
  | highlighted => "highlighted"
  | superscript => "superscript"
  | supe => "supe"
  | subscript => "subscript"
  | insert => "insert"
  | delete => "delete"
  | span => "span"
  | table => "table"
  | caption => "caption"
  | doubleQuoted => "double_quoted"
  | singleQuoted => "single_quoted"
  | listItem => "list_item"
  | definitionList => "definition_list"
  | definitionListItem => "definition_list_item"
  | term => "term"
  | definition => "definition"
  | blockquote => "blockquote"
  | blockQuote => "block_quote"

/-- The tag of a literal. -/
def LiteralKind.name : LiteralKind → String
  | inlineMath => "inline_math"
  | displayMath => "display_math"
  | code => "code"
  | verbatim => "verbatim"
  | url => "url"
  | email => "email"
  | str => "str"

/-- The tag of a leaf. -/
def LeafKind.name : LeafKind → String
  | thematicBreak => "thematic_break"
  | nonBreakingSpace => "non_breaking_space"
  | softBreak => "soft_break"
  | softbreak => "softbreak"
  | hardBreak => "hard_break"
  | hardbreak => "hardbreak"

namespace Kind

/-- The name of a kind, which is also its tag in a tree. -/
def name : Kind → String
  | doc => "doc"
  | container k => k.name
  | heading => "heading"
  | row => "row"
  | cell => "cell"
  | footnoteReference => "footnote_reference"
  | footnote => "footnote"
  | endnotes => "endnotes"
  | smartPunctuation => "smart_punctuation"
  | literal k => k.name
  | codeBlock => "code_block"
  | raw .block => "raw_block"
  | raw .inline => "raw_inline"
  | symb => "symb"
  | link .link => "link"
  | link .image => "image"
  | list .bullet => "bullet_list"
  | list .task => "task_list"
  | orderedList => "ordered_list"
  | taskListItem => "task_list_item"
  | leaf k => k.name

/-- Every kind, in the order of the format. -/
def all : List Kind :=
  [doc, container .sectionGroup, container .div, container .para, heading, container .emph,
    container .strong, container .mark, container .highlighted, container .superscript,
    container .supe, container .subscript, container .insert, container .delete,
    container .span, container .table, container .caption, row, cell, footnoteReference,
    footnote, endnotes, container .doubleQuoted, container .singleQuoted, smartPunctuation,
    literal .inlineMath, literal .displayMath, literal .code, literal .verbatim, codeBlock,
    raw .block, raw .inline, symb, literal .url, literal .email, link .link, link .image,
    list .bullet, orderedList, container .listItem, container .definitionList,
    container .definitionListItem, container .term, container .definition, list .task,
    taskListItem, container .blockquote, container .blockQuote, leaf .thematicBreak,
    literal .str, leaf .nonBreakingSpace, leaf .softBreak, leaf .softbreak, leaf .hardBreak,
    leaf .hardbreak]

/-- The kinds that a node can have: all but the endnotes section. -/
def ofNodes : List Kind := all.filter (· ≠ endnotes)

/-- The kind of a name. -/
def ofName? (s : String) : Option Kind := all.find? (·.name = s)

/-- The node kind of a tag. -/
def ofTag? (s : String) : Option Kind := ofNodes.find? (·.name = s)

/-- The kind whose override serves where this one has none. -/
def alias? : Kind → Option Kind
  | container .mark => some (container .highlighted)
  | container .highlighted => some (container .mark)
  | container .superscript => some (container .supe)
  | container .supe => some (container .superscript)
  | literal .code => some (literal .verbatim)
  | literal .verbatim => some (literal .code)
  | container .blockquote => some (container .blockQuote)
  | container .blockQuote => some (container .blockquote)
  | leaf .softBreak => some (leaf .softbreak)
  | leaf .softbreak => some (leaf .softBreak)
  | leaf .hardBreak => some (leaf .hardbreak)
  | leaf .hardbreak => some (leaf .hardBreak)
  | container .doubleQuoted => some (container .singleQuoted)
  | container .singleQuoted => some (container .doubleQuoted)
  | _ => none

theorem mem_all (k : Kind) : k ∈ all := by
  cases k with
  | container k => cases k <;> decide
  | literal k => cases k <;> decide
  | leaf k => cases k <;> decide
  | raw k => cases k <;> decide
  | link k => cases k <;> decide
  | list k => cases k <;> decide
  | _ => decide

end Kind

end DocMarkup
