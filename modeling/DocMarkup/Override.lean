import DocMarkup.Markup.Html
import DocMarkup.Text.Quoted
import DocMarkup.Tree.Node

/-!
# Overrides

How the rendering of a kind is replaced. A plain tag replaces the element and leaves the rest as
it is; a component is a function that builds the output from everything that is known about the
node. A kind without an override of its own takes that of its alias.

## Main definitions

* `Request` : what is known about a node when its output is built.
* `Override`, `Overrides` : replacements by kind.
* `Overrides.pick` : the replacement that serves a kind.
* `Overrides.ofTags` : plain tags by names of kinds.
-/

namespace DocMarkup

/-- The values that a kind of node has to offer; each kind sets its own. -/
structure Inputs where
  /-- The level of a heading, from 1 to 6. -/
  level : Option Nat := none
  align : Option Alignment := none
  /-- Whether a row or a cell belongs to a table head. -/
  head : Option Bool := none
  checkbox : Option Checkbox := none
  /-- The tightness of a list, or that of the list around an item. -/
  tight : Option Bool := none
  /-- The text of code, mathematics, raw content, glyphs and addresses. -/
  value : Option String := none
  format : Option String := none
  language : Option String := none
  /-- The name of a symbol. -/
  symbol : Option String := none
  href : Option String := none
  alt : Option String := none
  /-- The type of smart punctuation. -/
  type : Option String := none
  /-- The number of a footnote. -/
  index : Option Nat := none
  /-- The label of a footnote. -/
  label : Option String := none
  /-- The labels of all footnotes in the order of their numbers. -/
  order : List String := []
  /-- The first number of an ordered list. -/
  start : Option UInt64 := none

/-- A node whose children are rendered and whose own output is still to be built. -/
structure Request where
  kind : Kind
  /-- The node itself; for the endnotes section, the document. -/
  node : Node
  /-- What tells the node apart from its siblings. -/
  key : Option String
  /-- The properties of the element that is built by default. -/
  props : Props
  inputs : Inputs
  children : List Html

/-- The output as an element. -/
def Request.element (tag : String) (r : Request) : Html := .element tag r.key r.props r.children

/-- The output as a group without an element. -/
def Request.fragment (r : Request) : Html := .fragment r.key r.children

/-- A function that builds the output of a node. -/
abbrev Component := Request → Html

/-- A replacement for the rendering of a kind. -/
inductive Override where
  | tag (name : String)
  | component (build : Component)

namespace Override

/-- Whether the override is a component. -/
def isComponent : Override → Bool
  | tag _ => false
  | component _ => true

/-- The output that the override builds. A component's result takes the key of the node unless it
has one. -/
def apply (o : Override) (r : Request) : Html :=
  match o with
  | tag name => r.element name
  | component build => (build r).withDefaultKey r.key

/-- The override as messages show it. -/
def describe : Override → String
  | tag name => "Tag(" ++ Text.quoted name ++ ")"
  | component _ => "Component(..)"

end Override

/-- Replacements by kind. -/
abbrev Overrides := OrderedMap Kind Override

/-- Why replacements cannot be made from names. -/
inductive OverrideError where
  | unknownKind (name : String)
  | invalidTag (kind : Kind) (tag : String)
  deriving DecidableEq, Repr

/-- The message of the error. -/
def OverrideError.message : OverrideError → String
  | unknownKind name => "unknown component kind: " ++ name
  | invalidTag kind tag =>
    "invalid tag " ++ Text.quoted tag ++ " for component kind " ++ kind.name

namespace Overrides

/-- The override that serves a kind: its own, or else that of its alias. -/
def pick (ov : Overrides) (k : Kind) : Option Override :=
  (ov.get? k).or (k.alias?.bind fun l => ov.get? l)

/-- Whether a component serves a kind. -/
def hasComponent (ov : Overrides) (k : Kind) : Bool := (ov.pick k).any Override.isComponent

/-- The output of a node: through the override that serves its kind, or as by default. -/
def build (ov : Overrides) (byDefault : Request → Html) (r : Request) : Html :=
  match ov.pick r.kind with
  | some o => o.apply r
  | none => byDefault r

/-- Plain tags set one after the other, by names of kinds. -/
def addTags (ov : Overrides) : List (String × String) → Except OverrideError Overrides
  | [] => .ok ov
  | (name, tag) :: rest =>
    match Kind.ofName? name with
    | none => .error (.unknownKind name)
    | some k =>
      if Html.isTagName tag then addTags (ov.insert k (.tag tag)) rest
      else .error (.invalidTag k tag)

/-- The overrides of plain tags by names of kinds. The first pair with a fault decides the
error. -/
def ofTags (pairs : List (String × String)) : Except OverrideError Overrides := addTags ∅ pairs

end Overrides

end DocMarkup
