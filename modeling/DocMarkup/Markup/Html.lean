import DocMarkup.Markup.Style

/-!
# Output trees

What a document renders to: texts, elements with properties, and groups of nodes without an
element around them. Elements and groups may carry a key that tells siblings apart and is never
written. Properties have the names that scripts use, `className` and `htmlFor` among them.

## Main definitions

* `PropValue`, `Props` : properties in order.
* `Html` : the trees.
* `Html.isBlank` : whether nothing is written for a tree.
-/

namespace DocMarkup

/-- The value of a property. -/
inductive PropValue where
  | text (s : String)
  | flag (b : Bool)
  | number (n : UInt64)
  | style (s : Style)
  deriving DecidableEq

/-- Properties in the order in which they were first set. -/
abbrev Props := OrderedMap String PropValue

/-- The value of a property that is a text. -/
def Props.text? (p : Props) (name : String) : Option String :=
  match p.get? name with
  | some (.text s) => some s
  | _ => none

/-- An output tree. -/
inductive Html where
  | text (s : String)
  | element (tag : String) (key : Option String) (props : Props) (children : List Html)
  /-- Nodes side by side. -/
  | fragment (key : Option String) (children : List Html)

namespace Html

instance : Inhabited Html := ⟨fragment none []⟩

/-- Nothing at all. -/
def empty : Html := fragment none []

mutual

/-- Whether nothing is written for the tree: only empty texts, side by side. -/
def isBlank : Html → Bool
  | text s => s.isEmpty
  | element .. => false
  | fragment _ kids => allBlank kids

/-- Whether nothing is written for any of the trees. -/
def allBlank : List Html → Bool
  | [] => true
  | h :: rest => h.isBlank && allBlank rest

end

/-- Elements that never have content and are written as one tag. -/
def voidTags : List String :=
  ["area", "base", "br", "col", "embed", "hr", "img", "input", "link", "meta", "param", "source",
    "track", "wbr"]

/-- Whether elements of the tag never have content. -/
def isVoid (tag : String) : Bool := voidTags.contains tag

/-- Whether the text can be a tag: a letter, then letters, digits and hyphens, all of ASCII. -/
def isTagName (s : String) : Bool :=
  match s.toList with
  | [] => false
  | c :: rest => c.isAlpha && rest.all fun d => d.isAlphanum || d = '-'

/-- The tree with a key, if it can have one and has none. -/
def withDefaultKey (key : Option String) : Html → Html
  | element tag none props kids => element tag key props kids
  | fragment none kids => fragment key kids
  | h => h

end Html

end DocMarkup
