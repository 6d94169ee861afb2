import DocMarkup.Json.Writer
import DocMarkup.Markup.Html

/-!
# Output trees as JSON

An output tree as an object whose first member names its sort. A key is a member only where there
is one. Properties form an object in their order, with values by sort: a string, a truth value, a
number, or an object of style properties.

## Main definitions

* `Html.toJson` : the JSON value of a tree.
-/

namespace DocMarkup

/-- The JSON value of a property value. -/
def PropValue.toJson : PropValue → Json.Value
  | text s => .string s
  | flag b => .bool b
  | number n => .number (.natural n)
  | style s => .object (s.entries.map fun e => (e.1, .string e.2))

/-- The JSON value of properties. -/
def Props.toJson (p : Props) : Json.Value := .object (p.entries.map fun e => (e.1, e.2.toJson))

namespace Html

/-- The member for a key. -/
def keyMember : Option String → List (String × Json.Value)
  | none => []
  | some k => [("key", .string k)]

mutual

/-- The JSON value of a tree. -/
def toJson : Html → Json.Value
  | text s => .object [("type", .string "text"), ("text", .string s)]
  | element tag key props kids =>
    .object (("type", .string "element") :: ("tag", .string tag) :: keyMember key ++
      [("props", props.toJson), ("children", .array (toJsonAll kids))])
  | fragment key kids =>
    .object (("type", .string "fragment") :: keyMember key ++
      [("children", .array (toJsonAll kids))])

/-- The JSON values of trees. -/
def toJsonAll : List Html → List Json.Value
  | [] => []
  | h :: rest => h.toJson :: toJsonAll rest

end

end Html

end DocMarkup
