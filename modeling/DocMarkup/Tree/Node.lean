import DocMarkup.Dict
import DocMarkup.Tree.Kind

/-!
# Document trees

The nodes of a document tree. Nodes of kinds that carry the same data share a constructor, so that
a function that treats them alike says so once. A node of a kind that is not known keeps nothing.
A document also holds the bodies of its footnotes, keyed by label in ascending order, and two
dictionaries of link targets.

## Main definitions

* `Node`, `Footnote`, `Reference` : the tree.
* `Node.kind?`, `Node.tag`, `Node.children`, `Node.attributes?`, `Node.autoAttributes?` : what
  nodes of all kinds are asked for.
-/

namespace DocMarkup

/-- How the cells of a table column stand. -/
inductive Alignment where
  | left
  | right
  | center
  /-- No alignment is set. -/
  | default
  deriving DecidableEq, Repr

/-- The name of an alignment in a tree. -/
def Alignment.name : Alignment → String
  | left => "left"
  | right => "right"
  | center => "center"
  | default => "default"

/-- The box of a task list item. -/
inductive Checkbox where
  | checked
  | unchecked
  deriving DecidableEq, Repr

/-- A link target that links and images name by a label. -/
structure Reference where
  label : String
  destination : String
  attributes : Attributes

/-- Link targets by label. -/
abbrev References := Dict Reference

mutual

/-- A node of a document tree. -/
inductive Node where
  | doc (children : List Node) (attributes : Attributes) (references autoReferences : References)
    (footnotes : List (String × Footnote))
  | container (kind : ContainerKind) (children : List Node)
    (attributes autoAttributes : Attributes)
  | heading (level : UInt32) (children : List Node) (attributes autoAttributes : Attributes)
  | row (head : Bool) (children : List Node) (attributes : Attributes)
  | cell (head : Bool) (align : Alignment) (children : List Node) (attributes : Attributes)
  /-- A mark in the text that refers to the footnote of a label. -/
  | footnoteReference (label : String) (attributes : Attributes)
  | footnote (note : Footnote)
  /-- A glyph named by its type, with the text it was written as. -/
  | smartPunctuation (type text : String) (attributes : Attributes)
  | literal (kind : LiteralKind) (text : String) (attributes : Attributes)
  | codeBlock (lang : Option String) (text : String) (attributes : Attributes)
  /-- Content in a named output format. -/
  | raw (kind : RawKind) (format text : String) (attributes : Attributes)
  | symb (name : String) (attributes : Attributes)
  | link (kind : LinkKind) (destination reference : Option String) (children : List Node)
    (attributes : Attributes)
  | list (kind : ListKind) (tight : Bool) (style : Option String) (children : List Node)
    (attributes : Attributes)
  | orderedList (tight : Bool) (style : Option String) (start : Option UInt64)
    (children : List Node) (attributes : Attributes)
  | taskListItem (checkbox : Checkbox) (children : List Node) (attributes : Attributes)
  | leaf (kind : LeafKind) (attributes : Attributes)
  /-- A node of a kind that is not known. -/
  | unknown

/-- The body of a footnote. -/
structure Footnote where
  label : String
  children : List Node
  attributes : Attributes

end

namespace Node

instance : Inhabited Node := ⟨unknown⟩

/-- The kind of a node, if it is known. -/
def kind? : Node → Option Kind
  | doc .. => some .doc
  | container k .. => some (.container k)
  | heading .. => some .heading
  | row .. => some .row
  | cell .. => some .cell
  | footnoteReference .. => some .footnoteReference
  | footnote _ => some .footnote
  | smartPunctuation .. => some .smartPunctuation
  | literal k .. => some (.literal k)
  | codeBlock .. => some .codeBlock
  | raw k .. => some (.raw k)
  | symb .. => some .symb
  | link k .. => some (.link k)
  | list k .. => some (.list k)
  | orderedList .. => some .orderedList
  | taskListItem .. => some .taskListItem
  | leaf k _ => some (.leaf k)
  | unknown => none

/-- The tag of a node. -/
def tag (n : Node) : String := (n.kind?.map Kind.name).getD "unknown"

/-- The children of a node in order. -/
def children : Node → List Node
  | doc kids .. => kids
  | container _ kids .. => kids
  | heading _ kids .. => kids
  | row _ kids _ => kids
  | cell _ _ kids _ => kids
  | footnote note => note.children
  | link _ _ _ kids _ => kids
  | list _ _ _ kids _ => kids
  | orderedList _ _ _ kids _ => kids
  | taskListItem _ kids _ => kids
  | footnoteReference .. | smartPunctuation .. | literal .. | codeBlock .. | raw .. | symb ..
  | leaf .. | unknown => []

/-- The attributes that the author gave, if the node is of a known kind. -/
def attributes? : Node → Option Attributes
  | doc _ attrs .. => some attrs
  | container _ _ attrs _ => some attrs
  | heading _ _ attrs _ => some attrs
  | row _ _ attrs => some attrs
  | cell _ _ _ attrs => some attrs
  | footnoteReference _ attrs => some attrs
  | footnote note => some note.attributes
  | smartPunctuation _ _ attrs => some attrs
  | literal _ _ attrs => some attrs
  | codeBlock _ _ attrs => some attrs
  | raw _ _ _ attrs => some attrs
  | symb _ attrs => some attrs
  | link _ _ _ _ attrs => some attrs
  | list _ _ _ _ attrs => some attrs
  | orderedList _ _ _ _ attrs => some attrs
  | taskListItem _ _ attrs => some attrs
  | leaf _ attrs => some attrs
  | unknown => none

/-- The attributes that were derived from the content, if the node's kind has such. -/
def autoAttributes? : Node → Option Attributes
  | container _ _ _ auto => some auto
  | heading _ _ _ auto => some auto
  | _ => none

end Node

end DocMarkup
