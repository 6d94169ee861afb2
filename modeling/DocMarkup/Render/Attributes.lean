import DocMarkup.Markup.Html
import DocMarkup.RawHtml.Hazard
import DocMarkup.Tree.Node

/-!
# Properties from attributes

The attributes of a node become properties of its element, on top of those that its kind sets.
Classes add up, styles merge property by property, and any other attribute replaces what was
there. Attributes that the author gave go over derived ones. Unsafe attributes are dropped.

## Main definitions

* `Props.withAttributes` : properties with a dictionary of attributes on top.
* `Node.props` : the properties of a node.
-/

namespace DocMarkup

namespace Props

/-- Class lists joined by a space; an empty list adds nothing. -/
def joinClasses (a : Option String) (b : String) : String :=
  match a with
  | none => b
  | some a => if a.isEmpty then b else if b.isEmpty then a else a ++ " " ++ b

/-- Properties with more classes. -/
def addClass (p : Props) (classes : String) : Props :=
  let joined := joinClasses (p.text? "className") classes
  if joined.isEmpty then p else p.insert "className" (.text joined)

/-- Properties with more declarations of style, which move behind all other properties. -/
def addStyle (p : Props) (declarations : String) : Props :=
  match Style.parse? declarations with
  | none => p
  | some s =>
    let merged := match p.get? "style" with
      | some (.style old) => OrderedMap.overlay old s
      | _ => s
    (p.erase "style").insert "style" (.style merged)

/-- Properties with one more attribute on top. -/
def addAttribute (p : Props) (name value : String) : Props :=
  if Hazard.isUnsafe name value then p
  else if name = "class" then p.addClass value
  else if name = "style" then p.addStyle value
  else p.insert name (.text value)

/-- Properties with a dictionary of attributes on top. -/
def withAttributes (p : Props) (attrs : Attributes) : Props :=
  attrs.entries.foldl (fun p e => p.addAttribute e.1 e.2) p

end Props

/-- The properties of a node, on top of those that its kind sets: first the derived attributes,
then those that the author gave. -/
def Node.props (n : Node) (own : Props) : Props :=
  (own.withAttributes (n.autoAttributes?.getD ∅)).withAttributes (n.attributes?.getD ∅)

end DocMarkup
