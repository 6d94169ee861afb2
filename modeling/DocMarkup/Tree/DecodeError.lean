import DocMarkup.Json.Lexeme
import DocMarkup.Text.Quoted
import DocMarkup.Tree.Shape

/-!
# Why a text is no document tree

A text is refused because it is no JSON text, or because its value has the wrong shape. The second
sort carries a message that names what was found and what would have been accepted.

## Main definitions

* `DecodeError` : the causes.
* `DecodeError.message?` : the message of a value of the wrong shape.
-/

namespace DocMarkup

/-- What stands where something else was expected. -/
inductive Found where
  | null
  | bool (b : Bool)
  | number (n : Json.Number)
  | string (s : String)
  | sequence
  | map

/-- What a value is. -/
def Found.ofValue : Json.Value → Found
  | .null => null
  | .bool b => bool b
  | .number n => number n
  | .string s => string s
  | .array _ => sequence
  | .object _ => map

/-- What a value that starts with the token is. -/
def Found.ofToken? : Json.Token → Option Found
  | .null => some null
  | .bool b => some (bool b)
  | .number n => some (number n)
  | .string s => some (string s)
  | .openArray => some sequence
  | .openObject => some map
  | _ => none

/-- The words for what was found. -/
def Found.words : Found → String
  | null => "null"
  | bool true => "boolean `true`"
  | bool false => "boolean `false`"
  | number (.real x) => "floating point `" ++ (Json.Number.real x).text ++ "`"
  | number n => "integer `" ++ n.text ++ "`"
  | string s => "string " ++ Text.quoted s
  | sequence => "sequence"
  | map => "map"

/-- What would have been accepted. -/
inductive Wanted where
  | text
  | boolean
  | natural32
  | natural64
  | sequence
  | map
  | node
  | tag
  | choice
  | record (s : Shape)
  | nothing

/-- The words for what is wanted. -/
def Wanted.words : Wanted → String
  | text => "a string"
  | boolean => "a boolean"
  | natural32 => "u32"
  | natural64 => "u64"
  | sequence => "a sequence"
  | map => "a map"
  | node => "internally tagged enum Node"
  | tag => "variant identifier"
  | choice => "string or map"
  | record s => "struct " ++ s.name
  | nothing => "unit"

/-- Why a text is no document tree. -/
inductive DecodeError where
  /-- The text is no JSON text. -/
  | json (f : Json.Fault)
  /-- A record lacks a member that has no default. -/
  | missingField (name : String)
  /-- A record gives a member twice. -/
  | duplicateField (name : String)
  /-- A value is not of the sort that its place asks for. -/
  | wrongType (found : Found) (wanted : Wanted)
  /-- An integer is outside the range of its place. -/
  | outOfRange (n : Json.Number) (wanted : Wanted)
  /-- A checkbox is neither checked nor unchecked. -/
  | unknownCheckbox (name : String)
  /-- An object that should name one choice has no member or several. -/
  | notOneChoice
  /-- An array ends before the field without a default. -/
  | tooFewItems (given : Nat) (record : Shape)
  /-- An array has more items than the record has fields. -/
  | tooManyItems (given fields : Nat)

namespace DecodeError

/-- How many elements there are, in words. -/
def elements (n : Nat) : String :=
  if n = 1 then "1 element" else s!"{n} elements"

/-- What is wrong with the shape of a value. -/
def reason? : DecodeError → Option String
  | json _ => none
  | missingField f => some ("missing field `" ++ f ++ "`")
  | duplicateField f => some ("duplicate field `" ++ f ++ "`")
  | wrongType g w => some ("invalid type: " ++ g.words ++ ", expected " ++ w.words)
  | outOfRange n w => some ("invalid value: " ++ (Found.number n).words ++ ", expected " ++ w.words)
  | unknownCheckbox x =>
    some ("unknown variant `" ++ x ++ "`, expected `checked` or `unchecked`")
  | notOneChoice => some "invalid value: map, expected map with a single key"
  | tooFewItems n s =>
    some (s!"invalid length {n}, expected struct " ++ s.name ++ " with " ++
      elements s.fields.length)
  | tooManyItems n k => some (s!"invalid length {n}, expected " ++ elements k ++ " in sequence")

/-- The words that every complaint about a document tree starts with. -/
def heading : String := "invalid document tree"

/-- The message of a value of the wrong shape. The wording for a text that is no JSON text is left
to the caller. -/
def message? (e : DecodeError) : Option String := e.reason?.map fun r => heading ++ ": " ++ r

end DecodeError

end DocMarkup
