import DocMarkup.Tree.Kind

/-!
# The written shape of nodes

In JSON a node is a record: an object with a member `tag` and members for its fields, or an array
of its tag and its fields in order. This module fixes the fields of each kind, their names and
their order. At most one field of a record has no default, and it stands first.

## Main definitions

* `Field` : the fields, and `Field.name`.
* `Shape` : a record with its fields in order; `Kind.shape`, the record of a kind.
-/

namespace DocMarkup

/-- A field of a record. -/
inductive Field where
  | children
  | attributes
  | autoAttributes
  | references
  | autoReferences
  | footnotes
  | level
  | head
  | align
  | label
  | text
  | type
  | lang
  | format
  | symbolName
  /-- The target of a link, which may be absent. -/
  | destination
  /-- The target of a reference, empty where absent. -/
  | target
  | reference
  | tight
  | style
  | start
  | checkbox
  deriving DecidableEq, Repr

/-- The member name of a field. -/
def Field.name : Field → String
  | children => "children"
  | attributes => "attributes"
  | autoAttributes => "autoAttributes"
  | references => "references"
  | autoReferences => "autoReferences"
  | footnotes => "footnotes"
  | level => "level"
  | head => "head"
  | align => "align"
  | label => "label"
  | text => "text"
  | type => "type"
  | lang => "lang"
  | format => "format"
  | symbolName => "alias"
  | destination | target => "destination"
  | reference => "reference"
  | tight => "tight"
  | style => "style"
  | start => "start"
  | checkbox => "checkbox"

/-- A record. -/
inductive Shape where
  | doc
  | container
  | heading
  | row
  | cell
  | footnote
  | literal
  | smartPunctuation
  | codeBlock
  | raw
  | symb
  | link
  | list
  | orderedList
  | taskListItem
  | leaf
  | reference
  deriving DecidableEq, Repr

namespace Shape

/-- The name of a record in messages. -/
def name : Shape → String
  | doc => "Doc"
  | container => "Container"
  | heading => "Heading"
  | row => "Row"
  | cell => "Cell"
  | footnote => "Footnote"
  | literal => "Literal"
  | smartPunctuation => "SmartPunctuation"
  | codeBlock => "CodeBlock"
  | raw => "Raw"
  | symb => "Symb"
  | link => "Link"
  | list => "List"
  | orderedList => "OrderedList"
  | taskListItem => "TaskListItem"
  | leaf => "Leaf"
  | reference => "Reference"

/-- The fields of a record in order. -/
def fields : Shape → List Field
  | doc => [.children, .attributes, .references, .autoReferences, .footnotes]
  | container => [.children, .attributes, .autoAttributes]
  | heading => [.level, .children, .attributes, .autoAttributes]
  | row => [.head, .children, .attributes]
  | cell => [.head, .align, .children, .attributes]
  | footnote => [.label, .children, .attributes]
  | literal => [.text, .attributes]
  | smartPunctuation => [.type, .text, .attributes]
  | codeBlock => [.lang, .text, .attributes]
  | raw => [.format, .text, .attributes]
  | symb => [.symbolName, .attributes]
  | link => [.destination, .reference, .children, .attributes]
  | list => [.tight, .style, .children, .attributes]
  | orderedList => [.tight, .style, .start, .children, .attributes]
  | taskListItem => [.checkbox, .children, .attributes]
  | leaf => [.attributes]
  | reference => [.label, .target, .attributes]

/-- The field that a record must give, if it has one. -/
def required? : Shape → Option Field
  | heading => some .level
  | footnote => some .label
  | smartPunctuation => some .type
  | raw => some .format
  | symb => some .symbolName
  | _ => none

/-- The field that a member of the given name fills. -/
def field? (s : Shape) (name : String) : Option Field := s.fields.find? (·.name = name)

end Shape

/-- The record that a node of the kind is written as. The endnotes section is never written. -/
def Kind.shape : Kind → Shape
  | .doc => .doc
  | .container _ => .container
  | .heading => .heading
  | .row => .row
  | .cell => .cell
  | .footnoteReference => .literal
  | .footnote => .footnote
  | .endnotes => .leaf
  | .smartPunctuation => .smartPunctuation
  | .literal _ => .literal
  | .codeBlock => .codeBlock
  | .raw _ => .raw
  | .symb => .symb
  | .link _ => .link
  | .list _ => .list
  | .orderedList => .orderedList
  | .taskListItem => .taskListItem
  | .leaf _ => .leaf

end DocMarkup
