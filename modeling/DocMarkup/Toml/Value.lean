import DocMarkup.Toml.Moment
import DocMarkup.Toml.Number

/-!
# TOML values and tables

A table remembers how it came to be, because that decides what may still be added to it: a table
with a header of its own takes no second header, one that dotted keys have made takes only dotted
keys, and one written between braces takes nothing more.

## Main definitions

* `Toml.Value`, `Toml.Table` : the values and tables of a document.
* `Toml.Table.assign?` : the table with a key set, along a dotted path.
* `Toml.Table.within?` : the table with a change made to the table under a header's path.
* `Toml.Table.declare?`, `Toml.Table.append?` : the table with a table of its own, or one more in a
  row of tables.
* `Toml.Value.isSound` : whether every number in a value has a value.
-/

namespace DocMarkup.Toml

/-- How a table came to be. -/
inductive Origin where
  /-- By a header of its own. -/
  | header
  /-- As part of the path of a header. -/
  | path
  /-- As part of a dotted key. -/
  | dotted
  /-- Between braces. -/
  | braces
  deriving DecidableEq, Repr

/-- A value of a document. -/
inductive Value where
  | string (s : String)
  | number (n : Number)
  | bool (b : Bool)
  | moment (m : Moment)
  | array (items : List Value)
  | table (origin : Origin) (entries : List (String × Value))
  /-- Tables in a row, each with a header in double brackets: the last one, and those before it
  from the latest to the first. -/
  | row (last : List (String × Value)) (earlier : List (List (String × Value)))

instance : Inhabited Value := ⟨.bool false⟩

/-- The entries of a table, in the order in which their keys came first. -/
abbrev Table := List (String × Value)

namespace Table

/-- Sets a key, in its place where it is present and at the end otherwise. -/
def set (k : String) (v : Value) : Table → Table
  | [] => [(k, v)]
  | e :: rest => if e.1 = k then (k, v) :: rest else e :: set k v rest

/-- Sets a new key along a path of dotted keys. Tables on the path are made where they are missing,
and those that have only been part of the path of a header are from then on tables that dotted keys
have made. A row of tables stands for its last one, but takes no key itself. -/
def assign? (k : String) (v : Value) : List String → Table → Option Table
  | [], t => if (t.lookup k).isSome then none else some (set k v t)
  | p :: path, t =>
    match t.lookup p with
    | none => (assign? k v path []).map fun s => set p (.table .dotted s) t
    | some (.table .dotted s) | some (.table .path s) =>
      (assign? k v path s).map fun s => set p (.table .dotted s) t
    | some (.row last earlier) =>
      if path.isEmpty then none
      else (assign? k v path last).map fun s => set p (.row s earlier) t
    | some _ => none

/-- Changes the table at the end of a header's path. Tables on the path are made where they are
missing, and a row of tables stands for its last one. -/
def within? (change : Table → Option Table) : List String → Table → Option Table
  | [], t => change t
  | p :: path, t =>
    match t.lookup p with
    | none => (within? change path []).map fun s => set p (.table .path s) t
    | some (.table .braces _) => none
    | some (.table origin s) => (within? change path s).map fun s => set p (.table origin s) t
    | some (.row last earlier) => (within? change path last).map fun s => set p (.row s earlier) t
    | some _ => none

/-- Gives a table a header of its own: a new table, or one that has only been part of a path. -/
def declare? (k : String) (t : Table) : Option Table :=
  match t.lookup k with
  | none => some (set k (.table .header []) t)
  | some (.table .path s) => some (set k (.table .header s) t)
  | some _ => none

/-- Adds an empty table to a row of tables, or starts one. -/
def append? (k : String) (t : Table) : Option Table :=
  match t.lookup k with
  | none => some (set k (.row [] []) t)
  | some (.row last earlier) => some (set k (.row [] (last :: earlier)) t)
  | some _ => none

end Table

namespace Value

/-- The name under which a moment gives its text to who asks for a table. -/
def momentName : String := "$__toml_private_datetime"

/-- The value as a table. -/
def table? : Value → Option Table
  | table _ entries => some entries
  | moment m => some [(momentName, .string m.text)]
  | _ => none

/-- The value as an array. -/
def items? : Value → Option (List Value)
  | array items => some items
  | row last earlier => some ((earlier.reverse ++ [last]).map (table .header))
  | _ => none

mutual

/-- Whether every number in a value has a value. -/
def isSound : Value → Bool
  | number n => n ≠ .void
  | array items => allSound items
  | table _ entries => entriesSound entries
  | row last earlier => entriesSound last && rowSound earlier
  | string _ | bool _ | moment _ => true

/-- Whether every number in a list of values has a value. -/
def allSound : List Value → Bool
  | [] => true
  | v :: rest => v.isSound && allSound rest

/-- Whether every number in the entries of a table has a value. -/
def entriesSound : List (String × Value) → Bool
  | [] => true
  | (_, v) :: rest => v.isSound && entriesSound rest

/-- Whether every number in a list of tables has a value. -/
def rowSound : List (List (String × Value)) → Bool
  | [] => true
  | t :: rest => entriesSound t && rowSound rest

end

end Value

end DocMarkup.Toml
