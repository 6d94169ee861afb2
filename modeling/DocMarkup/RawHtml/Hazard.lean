import DocMarkup.Markup.Html

/-!
# Hazards

What must not pass from a document or from raw HTML into the output: handlers of events, and
addresses that run a script or carry data in themselves.

## Main definitions

* `Hazard.isEventHandler` : attributes that run a script on an event.
* `Hazard.isUnsafeUrl` : attributes with an address whose scheme must not reach the output.
* `Hazard.isBlocked` : elements that are dropped with all they hold.
-/

namespace DocMarkup.Hazard

/-- Whether the name starts with `on`, in any mix of capitals. -/
def isEventHandler (name : String) : Bool :=
  match name.toList with
  | c :: d :: _ => c.toLower = 'o' && d.toLower = 'n'
  | _ => false

/-- Attributes that hold an address. -/
def urlAttributes : List String := ["action", "formaction", "href", "poster", "src", "xlink:href"]

/-- Whether the attribute of that name, in any mix of capitals, holds an address. -/
def isUrlAttribute (name : String) : Bool :=
  urlAttributes.contains (String.ofList (name.toList.map Char.toLower))

/-- The schemes that must not reach the output, each with its colon. -/
def unsafeSchemes : List (List Char) :=
  ["javascript:".toList, "vbscript:".toList, "data:".toList]

/-- The address as a reader of its scheme sees it: without tabs and line ends, and without control
characters and spaces in front. -/
def normalizeUrl (s : List Char) : List Char :=
  (s.dropWhile (· ≤ ' ')).filter fun c => !(c = '\t' || c = '\n' || c = '\r')

/-- The letter that a character counts as in a scheme: case does not matter, and the long s is an
s. -/
def foldCase (c : Char) : Char := if c = '\u017f' then 's' else c.toLower

/-- Whether the address starts with an unsafe scheme. -/
def hasUnsafeScheme (s : List Char) : Bool :=
  unsafeSchemes.any fun scheme => scheme.isPrefixOf ((normalizeUrl s).map foldCase)

/-- Whether the attribute holds an address whose scheme must not reach the output. -/
def isUnsafeUrl (name value : String) : Bool := isUrlAttribute name && hasUnsafeScheme value.toList

/-- Whether an attribute must not reach the output. -/
def isUnsafe (name value : String) : Bool := isEventHandler name || isUnsafeUrl name value

/-- Elements that are dropped with all they hold. -/
def blockedTags : List String := ["base", "embed", "form", "iframe", "meta", "object", "script"]

/-- Whether elements of the tag are dropped. -/
def isBlocked (tag : String) : Bool := blockedTags.contains tag

end DocMarkup.Hazard
