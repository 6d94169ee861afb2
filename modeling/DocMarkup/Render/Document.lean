import DocMarkup.Markup.Writer
import DocMarkup.Render.Endnotes
import DocMarkup.Render.Table

/-!
# Rendering documents

A document tree as an output tree. Nodes are rendered in document order, and children get their
place among siblings as key. A document numbers the footnotes that its content mentions before it
renders anything, and ends with its endnotes; a document inside another keeps its numbers to
itself.

## Main definitions

* `Render.node` : the rendering of a node.
* `Node.render` : the output tree of a node, if it renders to anything.
* `Node.renderMarkup` : its markup.
-/

namespace DocMarkup

namespace Render

/-- What stays the same while the nodes of one document are rendered. -/
structure Setting where
  overrides : Overrides
  links : Links

/-- Those of the rendered children that are there. -/
def present (children : List (Option Html)) : List Html := children.filterMap id

/-- How many labels of footnotes a document has at most. -/
def labelBound (kids : List Node) (notes : List (String × Footnote)) : Nat :=
  (Node.mentionsAll kids).length + notes.length +
    notes.foldr (fun e n => (Node.mentionsAll e.2.children).length + n) 0

/-- The content of an item: as it is where a component builds the item, and else without the
paragraph of a tight list. -/
def itemContent (ov : Overrides) (kind : Kind) (tight : Option Bool)
    (whole unwrapped : Rendering (List Html)) : Rendering (List Html) :=
  if tight = some true && !ov.hasComponent kind then unwrapped else whole

mutual

/-- The rendering of a node. `tight` is the tightness of the list around an item. -/
def node (s : Setting) (key : Option String) (tight : Option Bool) :
    Node → Rendering (Option Html)
  | .doc kids attrs refs auto notes =>
    let inner : Setting := ⟨s.overrides, ⟨refs, auto⟩⟩
    let n : Node := .doc kids attrs refs auto notes
    Rendering.apart (Numbering.ofLabels (Node.mentionsAll kids)) do
      let content ← each inner none 0 kids
      let endnotes ← Endnotes.render
        ⟨s.overrides, n, notes, bodies inner notes, labelBound kids notes⟩
      return some (Single.group s.overrides
        (Single.request .doc n key ∅ {} (present content ++ endnotes.toList)))
  | .container k kids attrs auto =>
    let n : Node := .container k kids attrs auto
    let whole := each s none 0 kids
    match k with
    | .table => do
      let children ← whole
      return Single.container s.overrides .table n key
        (TableParts.ofList (kids.zip children)).toList
    | .listItem => do
      let unwrapped := match kids with
        | [.container .para inner _ _] => each s none 0 inner
        | _ => whole
      let children ← itemContent s.overrides (.container .listItem) tight (present <$> whole)
        (present <$> unwrapped)
      return some (Single.item s.overrides (.container .listItem) n key tight none children)
    | k => do
      let children ← whole
      return Single.container s.overrides k n key (present children)
  | .heading level kids attrs auto => do
    let children ← each s none 0 kids
    return some (Single.heading s.overrides (.heading level kids attrs auto) key level
      (present children))
  | .row head kids attrs => do
    let children ← each s none 0 kids
    return some (Single.row s.overrides (.row head kids attrs) key head (present children))
  | .cell head align kids attrs => do
    let children ← each s none 0 kids
    return some (Single.cell s.overrides (.cell head align kids attrs) key head align
      (present children))
  | .footnoteReference label attrs => do
    let numbering ← get
    set (numbering.record label)
    return some (Single.footnoteReference s.overrides (.footnoteReference label attrs) key label
      (numbering.anchor label))
  | .footnote ⟨label, kids, attrs⟩ => do
    let index := ((← get).indexOf? label).getD 0
    let children ← each s none 0 kids
    return some (Single.footnote s.overrides ⟨label, kids, attrs⟩ key ∅ index label
      (present children))
  | .link .link destination reference kids attrs => do
    let children ← each s none 0 kids
    return some (Single.link s.overrides s.links (.link .link destination reference kids attrs)
      key destination reference (present children))
  | .link .image destination reference kids attrs =>
    return some (Single.image s.overrides s.links (.link .image destination reference kids attrs)
      key destination reference kids)
  | .list k isTight style kids attrs => do
    let children ← each s (some isTight) 0 kids
    return some (Single.list s.overrides k (.list k isTight style kids attrs) key isTight
      (present children))
  | .orderedList isTight style start kids attrs => do
    let children ← each s (some isTight) 0 kids
    return some (Single.orderedList s.overrides (.orderedList isTight style start kids attrs) key
      isTight style start (present children))
  | .taskListItem checkbox kids attrs => do
    let whole := each s none 0 kids
    let unwrapped := match kids with
      | [.container .para inner _ _] => each s none 0 inner
      | _ => whole
    let children ← itemContent s.overrides .taskListItem tight (present <$> whole)
      (present <$> unwrapped)
    return some (Single.item s.overrides .taskListItem (.taskListItem checkbox kids attrs) key
      tight (some checkbox) children)
  | .smartPunctuation type text attrs =>
    return some (Single.smartPunctuation s.overrides (.smartPunctuation type text attrs) key type
      text)
  | .literal k text attrs =>
    return some (Single.literal s.overrides k (.literal k text attrs) key text)
  | .codeBlock lang text attrs =>
    return some (Single.codeBlock s.overrides (.codeBlock lang text attrs) key lang text)
  | .raw k format text attrs =>
    return Single.raw s.overrides k (.raw k format text attrs) key format text
  | .symb name attrs =>
    return some (Single.symb s.overrides (.symb name attrs) key name)
  | .leaf k attrs => return some (Single.leaf s.overrides k (.leaf k attrs) key)
  | .unknown => return none

/-- The rendering of siblings in order, from a place on. -/
def each (s : Setting) (tight : Option Bool) (i : Nat) :
    List Node → Rendering (List (Option Html))
  | [] => return []
  | n :: rest => do
    let h ← node s (some (Decimal.text i)) tight n
    let hs ← each s tight (i + 1) rest
    return h :: hs

/-- The renderings of the bodies of footnotes, by label. -/
def bodies (s : Setting) : List (String × Footnote) → List (String × Rendering (List Html))
  | [] => []
  | (label, ⟨_, kids, _⟩) :: rest => (label, present <$> each s none 0 kids) :: bodies s rest

end

end Render

namespace Node

/-- The output tree of a node, if it renders to anything. -/
def render (ov : Overrides) (n : Node) : Option Html :=
  (Render.node ⟨ov, {}⟩ none none n {}).1

/-- The markup of a node; empty if it renders to nothing. -/
def renderMarkup (ov : Overrides) (n : Node) : String := ((n.render ov).map Html.markup).getD ""

end Node

end DocMarkup
