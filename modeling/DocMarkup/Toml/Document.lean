import DocMarkup.Toml.Token
import DocMarkup.Toml.Value

/-!
# TOML documents

A document is a sequence of statements, one a line: headers, which choose a table, and settings of
its keys. A line goes on while a bracket is open. Keys that are set twice, and tables that are
defined in two ways, make no document.

## Main definitions

* `Toml.value?` : the value that tokens write.
* `Toml.Draft` : the tables of the statements so far.
* `Toml.document?` : the table of a text.
-/

namespace DocMarkup.Toml

/-! ### Keys and values -/

/-- Whether a character may stand in a key without quotation marks. -/
def isBareKeyChar (c : Char) : Bool := c.isAlphanum || c = '_' || c = '-'

/-- The key that a token writes. -/
def keyPart? : Token → Option String
  | .quoted false s => some s
  | .word cs => if cs.all isBareKeyChar then some (String.ofList cs) else none
  | _ => none

/-- The keys that full stops join. -/
def keyParts? : List Token → Option (List String)
  | [t] => (keyPart? t).map ([·])
  | t :: .stop :: rest => do return (← keyPart? t) :: (← keyParts? rest)
  | _ => none

/-- How deep brackets may nest in a value, and how many keys full stops may join. -/
def maxDepth : Nat := 80

/-- A dotted key as a path and a last key; blanks do not count. -/
def key? (ts : List Token) : Option (List String × String) := do
  let parts ← keyParts? (ts.filter fun t => !t.isBlank)
  if maxDepth < parts.length then none else return (parts.dropLast, ← parts.getLast?)

/-- The characters of a token outside strings and brackets. -/
def plainText? : Token → Option (List Char)
  | .word cs => some cs
  | .stop => some ['.']
  | .blank c => some [c]
  | _ => none

/-- The value that a text without brackets and quotation marks writes. -/
def plain? (s : List Char) : Option Value :=
  if s = ['t', 'r', 'u', 'e'] then some (.bool true)
  else if s = ['f', 'a', 'l', 's', 'e'] then some (.bool false)
  else match Number.ofText? s with
    | some n => some (.number n)
    | none => (Moment.ofText? s).map .moment

/-- The tokens of the items between two brackets. A comma may follow the last one. -/
def items? (inner : List Token) : Option (List (List Token)) := do
  let pieces ← (← Token.pieces? .comma 0 inner).map (Token.trim Token.isGap)
  let items := if pieces.getLast? = some [] then pieces.dropLast else pieces
  if [] ∈ items then none else some items

/-- The path, key and value of a setting, where `value?` reads the value. Between braces, key and
value may stand on lines of their own. -/
def setting? (value? : List Token → Option Value) (ts : List Token) :
    Option (List String × String × Value) :=
  match ts.dropWhile (· ≠ .equals) with
  | [] => none
  | _ :: rest => do
    let (path, k) ← key? (Token.trim Token.isGap (ts.takeWhile (· ≠ .equals)))
    return (path, k, ← value? (Token.trim Token.isGap rest))

/-- The value that tokens write, with brackets nested no deeper than a limit. -/
def value? : Nat → List Token → Option Value
  | _, [.quoted _ s] => some (.string s)
  | limit, ts =>
    match Token.between? .openBracket .closeBracket ts, Token.between? .openBrace .closeBrace ts,
      limit with
    | some inner, _, limit + 1 => do
      return .array (← (← items? inner).mapM (value? limit))
    | none, some inner, limit + 1 => do
      let settings ← (← items? inner).mapM (setting? (value? limit))
      return .table .braces (← settings.foldlM (fun t (path, k, v) => Table.assign? k v path t) [])
    | none, none, _ => do plain? (← ts.mapM plainText?).flatten
    | _, _, 0 => none

/-! ### Statements -/

/-- The tables of the statements so far. -/
structure Draft where
  root : Table
  /-- The path of the table that takes settings. -/
  current : List String

namespace Draft

/-- The draft after a header. -/
def header? (change : String → Table → Option Table) (d : Draft) (ts : List Token) :
    Option Draft := do
  let (path, k) ← key? ts
  return ⟨← Table.within? (change k) path d.root, path ++ [k]⟩

/-- The draft after a statement: a header in single or double brackets, or a setting. -/
def statement? (d : Draft) (ts : List Token) : Option Draft :=
  match Token.trim Token.isBlank ts with
  | [] => some d
  | .openBracket :: .openBracket :: rest => do
    let inner ← Token.between? .openBracket .closeBracket (.openBracket :: .openBracket :: rest)
    d.header? Table.append? (← Token.between? .openBracket .closeBracket inner)
  | .openBracket :: rest => do
    d.header? Table.declare?
      (← Token.between? .openBracket .closeBracket (.openBracket :: rest))
  | ts => do
    let (path, k, v) ← setting? (value? maxDepth) ts
    return ⟨← Table.within? (Table.assign? k v path) d.current d.root, d.current⟩

end Draft

/-- The text without a byte order mark at its start. -/
def dropMark : List Char → List Char
  | '\ufeff' :: rest => rest
  | s => s

/-- The table of a text, if the text is a document. -/
def document? (text : String) : Option Table := do
  let lines ← Token.pieces? .newline 0 (← tokens? (dropMark text.toList))
  return (← lines.foldlM Draft.statement? ⟨[], []⟩).root

end DocMarkup.Toml
