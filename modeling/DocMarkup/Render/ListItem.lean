import DocMarkup.Markup.Html
import DocMarkup.Tree.Node

/-!
# Lists and their items

## Main definitions

* `Node.itemContent` : the nodes that are rendered for an item.
* `Html.checkbox` : the box of a task.
* `numberType?` : the numbering type of an ordered list.
-/

namespace DocMarkup

/-- The nodes that are rendered for an item. In a tight list a paragraph that is the item's only
child gives way to its content. -/
def Node.itemContent (children : List Node) (tight : Bool) : List Node :=
  match children, tight with
  | [.container .para kids _ _], true => kids
  | _, _ => children

/-- The box of a task. It cannot be operated. -/
def Html.checkbox (state : Checkbox) : Html :=
  let props : Props := OrderedMap.empty.insert "type" (.text "checkbox")
  let props := match state with
    | .checked => props.insert "checked" (.flag true)
    | .unchecked => props
  .element "input" (some "checkbox") (props.insert "disabled" (.flag true)) []

/-- The numbering type of an ordered list of a style such as `(a)` or `i.`: the style without its
delimiters. Decimal numbering has none. -/
def numberType? (style : Option String) : Option String :=
  match style with
  | none => none
  | some s =>
    let type := s.toList.filter fun c => !(c = '(' || c = ')' || c = '.')
    if '1' ∈ s.toList ∨ type = [] then none else some (String.ofList type)

/-- The value of `text-align` for an alignment. -/
def Alignment.css? : Alignment → Option String
  | left => some "left"
  | right => some "right"
  | center => some "center"
  | default => none

end DocMarkup
