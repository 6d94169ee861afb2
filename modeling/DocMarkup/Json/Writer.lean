import DocMarkup.Json.Value

/-!
# Writing JSON

The compact text of a value: no blanks, members in their order. Quotation mark, backslash and the
control characters below U+0020 are written as escapes, every other character as it is.

## Main definitions

* `Json.Value.compact` : the text.
-/

namespace DocMarkup.Json

/-- The form of one character inside a string. -/
def escapedChar (c : Char) : List Char :=
  if c = '"' then ['\\', '"']
  else if c = '\\' then ['\\', '\\']
  else if c = '\x08' then ['\\', 'b']
  else if c = '\x0c' then ['\\', 'f']
  else if c = '\n' then ['\\', 'n']
  else if c = '\r' then ['\\', 'r']
  else if c = '\t' then ['\\', 't']
  else if c.toNat < 0x20 then
    ['\\', 'u', '0', '0', Nat.digitChar (c.toNat / 16), Nat.digitChar (c.toNat % 16)]
  else [c]

/-- A string between quotation marks. -/
def quotedChars (s : String) : List Char := '"' :: s.toList.flatMap escapedChar ++ ['"']

namespace Value

mutual

/-- The characters of the compact text. -/
def chars : Value → List Char
  | .null => ['n', 'u', 'l', 'l']
  | .bool true => ['t', 'r', 'u', 'e']
  | .bool false => ['f', 'a', 'l', 's', 'e']
  | .number n => n.text.toList
  | .string s => quotedChars s
  | .array [] => ['[', ']']
  | .array (v :: rest) => '[' :: v.chars ++ itemChars rest
  | .object [] => ['{', '}']
  | .object ((k, v) :: rest) =>
    '{' :: quotedChars k ++ ':' :: v.chars ++ memberChars rest

/-- The items after the first, and the end of the array. -/
def itemChars : List Value → List Char
  | [] => [']']
  | v :: rest => ',' :: v.chars ++ itemChars rest

/-- The members after the first, and the end of the object. -/
def memberChars : List (String × Value) → List Char
  | [] => ['}']
  | (k, v) :: rest => ',' :: quotedChars k ++ ':' :: v.chars ++ memberChars rest

end

/-- The compact text. -/
def compact (v : Value) : String := String.ofList v.chars

end Value

end DocMarkup.Json
