import DocMarkup.Decimal.Shortest

/-!
# JSON values

The values of a JSON text. Members of an object keep their order and may repeat a name; whoever
reads an object decides what a repetition means. Integers from `-2 ^ 63` to `2 ^ 64 - 1` are exact
and every other number is a double.

## Main definitions

* `Json.Number`, `Json.Value` : the values.
* `Json.Value.canonical` : members sorted by name, the last of a name kept.
* `Json.Value.describe` : how an error message names a value.
-/

namespace DocMarkup.Json

/-- A number: exact where it fits 64 bits, else a double. -/
inductive Number where
  /-- A natural number below `2 ^ 64`. -/
  | natural (n : UInt64)
  /-- A negative integer not below `-2 ^ 63`. -/
  | negative (n : Int)
  /-- Any other number, rounded. -/
  | real (x : Float)

/-- A JSON value. -/
inductive Value where
  | null
  | bool (b : Bool)
  | number (n : Number)
  | string (s : String)
  | array (items : List Value)
  | object (members : List (String × Value))

instance : Inhabited Value := ⟨.null⟩

/-- Doubles are written positionally when their first digit stands for at least `10 ^ -5` and at
most `10 ^ 15`, and with an exponent otherwise. -/
def Number.layout : Decimal.Layout := ⟨-5, 15⟩

/-- The text of a number. -/
def Number.text : Number → String
  | .natural n => Decimal.text n.toNat
  | .negative n => String.ofList ('-' :: Decimal.digits n.natAbs)
  | .real x => Number.layout.text x

namespace Value

/-- Sets a member in a list sorted by name, replacing an earlier one of that name. -/
def place (k : String) (v : Value) : List (String × Value) → List (String × Value)
  | [] => [(k, v)]
  | e :: rest =>
    if k = e.1 then (k, v) :: rest
    else if k < e.1 then (k, v) :: e :: rest
    else e :: place k v rest

mutual

/-- The value with the members of every object sorted by name; of members with one name the last
stays. -/
def canonical : Value → Value
  | .array items => .array (canonicalItems items)
  | .object members => .object (canonicalMembers [] members)
  | v => v

/-- `canonical` for the items of an array. -/
def canonicalItems : List Value → List Value
  | [] => []
  | v :: rest => v.canonical :: canonicalItems rest

/-- `canonical` for members, on top of those already sorted. -/
def canonicalMembers (sorted : List (String × Value)) :
    List (String × Value) → List (String × Value)
  | [] => sorted
  | (k, v) :: rest => canonicalMembers (place k v.canonical sorted) rest

end

end Value

end DocMarkup.Json
