import DocMarkup.Markup.Html
import DocMarkup.Tree.Node

/-!
# Parts of a table

The rendered children of a table by the part they belong to. Header rows belong to the head as long
as no other row has come; after that they belong to the body like all rows. Of several captions the
first counts, even if nothing is written for it.

## Main definitions

* `TableParts` : the parts so far, and `TableParts.push`, the parts with one more child.
* `TableParts.toList` : the children of the table element.
-/

namespace DocMarkup

/-- The rendered children of a table by part. -/
structure TableParts where
  /-- The rendering of the first caption, once there is one. -/
  caption : Option (Option Html) := none
  head : List Html := []
  body : List Html := []
  other : List Html := []

namespace TableParts

/-- The parts with one more child and what it renders to. -/
def push (t : TableParts) (child : Node) (rendered : Option Html) : TableParts :=
  match child with
  | .container .caption .. => { t with caption := t.caption.or (some rendered) }
  | .row head .. =>
    match rendered with
    | none => t
    | some h =>
      if head && t.body.isEmpty then { t with head := t.head ++ [h] }
      else { t with body := t.body ++ [h] }
  | _ => { t with other := t.other ++ rendered.toList }

/-- The parts of children with what they render to. -/
def ofList (children : List (Node × Option Html)) : TableParts :=
  children.foldl (fun t c => t.push c.1 c.2) {}

/-- Rows under an element of their own, if there are any. -/
def rowGroup (tag : String) (rows : List Html) : List Html :=
  if rows.isEmpty then [] else [.element tag (some tag) ∅ rows]

/-- The children of the table element: the caption, the head, the body, and everything else. -/
def toList (t : TableParts) : List Html :=
  t.caption.join.toList ++ rowGroup "thead" t.head ++ rowGroup "tbody" t.body ++ t.other

end TableParts

end DocMarkup
