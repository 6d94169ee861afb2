import DocMarkup.Decimal.Natural
import DocMarkup.RawHtml.Fragment
import DocMarkup.RawHtml.Hazard

/-!
# Sanitizing raw HTML

Raw HTML as output trees without its hazards. A blocked element is dropped with all it holds, and
so is an attribute that handles an event or holds an unsafe address; everything else is kept.
An element's key is the key around it with the element's place among its siblings, blocked ones
counted.

## Main definitions

* `RawHtml.sanitizeAttributes` : the properties of attributes.
* `RawHtml.sanitize` : the output trees of a text.
-/

namespace DocMarkup.RawHtml

/-- Attributes that are on when they are given without a value. -/
def flagAttributes : List String :=
  ["allowfullscreen", "async", "autofocus", "autoplay", "checked", "controls", "default", "defer",
    "disabled", "hidden", "loop", "multiple", "muted", "novalidate", "open", "playsinline",
    "readonly", "required", "reversed", "selected"]

/-- The property of an attribute that is kept, if it says anything. -/
def property? (name value : String) : Option (String × PropValue) :=
  if name = "class" then some ("className", .text value)
  else if name = "for" then some ("htmlFor", .text value)
  else if name = "style" then (Style.parse? value).map fun s => ("style", .style s)
  else if value.isEmpty && flagAttributes.contains name then some (name, .flag true)
  else some (name, .text value)

/-- The properties of attributes, the unsafe ones dropped. -/
def sanitizeAttributes (attrs : List (String × String)) : Props :=
  OrderedMap.ofList <|
    (attrs.filter fun a => !Hazard.isUnsafe a.1 a.2).filterMap fun a => property? a.1 a.2

/-- The key of the node at a place among siblings. -/
def childKey (key : String) (i : Nat) : String := key ++ "-" ++ Decimal.text i

mutual

/-- The output tree of a node at a place among its siblings, if it is kept. -/
def sanitizeNode? (key : String) (i : Nat) : RawNode → Option Html
  | .text s => some (.text s)
  | .element tag attrs kids =>
    if Hazard.isBlocked tag then none
    else some (.element tag (some (childKey key i)) (sanitizeAttributes attrs)
      (sanitizeNodes (childKey key i) 0 kids))

/-- The output trees of siblings from a place on. -/
def sanitizeNodes (key : String) (i : Nat) : List RawNode → List Html
  | [] => []
  | n :: rest => (sanitizeNode? key i n).toList ++ sanitizeNodes key (i + 1) rest

end

/-- The output trees of a text, without its hazards. -/
def sanitize (source key : String) : List Html := sanitizeNodes key 0 (fragment source)

end DocMarkup.RawHtml
