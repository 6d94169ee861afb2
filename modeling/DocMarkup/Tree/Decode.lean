import DocMarkup.Json.Reader
import DocMarkup.Tree.DecodeError
import DocMarkup.Tree.Node

/-!
# Decoding document trees

From a JSON value or a JSON text to a tree. Members that a record does not know are passed over
and may repeat; known members may not. In a dictionary the last value of a key stays. Below the
root a tag may also be given by the place of its kind in the fixed order of kinds. Of a text the
whole root value is read before its shape is looked at, with one exception: the tag of the root is
judged where it stands.

## Main definitions

* `Node.ofValue` : the tree of a JSON value.
* `Node.ofText` : the tree of a JSON text.
-/

namespace DocMarkup

/-- What the members of a record hold, each with its default. -/
structure Members where
  children : List Node := []
  attributes : Attributes := ∅
  autoAttributes : Attributes := ∅
  references : References := ∅
  autoReferences : References := ∅
  footnotes : List (String × Footnote) := []
  level : UInt32 := 0
  head : Bool := false
  align : Alignment := .default
  label : String := ""
  text : String := ""
  type : String := ""
  lang : Option String := none
  format : String := ""
  symbolName : String := ""
  destination : Option String := none
  target : String := ""
  reference : Option String := none
  tight : Bool := false
  style : Option String := none
  start : Option UInt64 := none
  checkbox : Checkbox := .unchecked

namespace Members

/-- The node of a kind with these members. -/
def node (m : Members) : Kind → Node
  | .doc => .doc m.children m.attributes m.references m.autoReferences m.footnotes
  | .container k => .container k m.children m.attributes m.autoAttributes
  | .heading => .heading m.level m.children m.attributes m.autoAttributes
  | .row => .row m.head m.children m.attributes
  | .cell => .cell m.head m.align m.children m.attributes
  | .footnoteReference => .footnoteReference m.text m.attributes
  | .footnote => .footnote ⟨m.label, m.children, m.attributes⟩
  | .endnotes => .unknown
  | .smartPunctuation => .smartPunctuation m.type m.text m.attributes
  | .literal k => .literal k m.text m.attributes
  | .codeBlock => .codeBlock m.lang m.text m.attributes
  | .raw k => .raw k m.format m.text m.attributes
  | .symb => .symb m.symbolName m.attributes
  | .link k => .link k m.destination m.reference m.children m.attributes
  | .list k => .list k m.tight m.style m.children m.attributes
  | .orderedList => .orderedList m.tight m.style m.start m.children m.attributes
  | .taskListItem => .taskListItem m.checkbox m.children m.attributes
  | .leaf k => .leaf k m.attributes

/-- The reference with these members. -/
def toReference (m : Members) : Reference := ⟨m.label, m.target, m.attributes⟩

/-- The footnote with these members. -/
def toFootnote (m : Members) : Footnote := ⟨m.label, m.children, m.attributes⟩

end Members

namespace Decode

/-- The result of decoding a part of a tree. -/
abbrev Result (α : Type) := Except DecodeError α

/-- A text. -/
def text : Json.Value → Result String
  | .string s => .ok s
  | v => .error (.wrongType (.ofValue v) .text)

/-- A truth value. -/
def boolean : Json.Value → Result Bool
  | .bool b => .ok b
  | v => .error (.wrongType (.ofValue v) .boolean)

/-- A natural number of 64 bits. -/
def natural64 : Json.Value → Result UInt64
  | .number (.natural n) => .ok n
  | .number (.negative n) => .error (.outOfRange (.negative n) .natural64)
  | v => .error (.wrongType (.ofValue v) .natural64)

/-- A natural number of 32 bits. -/
def natural32 : Json.Value → Result UInt32
  | .number (.natural n) =>
    if n.toNat < 1 <<< 32 then .ok n.toUInt32 else .error (.outOfRange (.natural n) .natural32)
  | .number (.negative n) => .error (.outOfRange (.negative n) .natural32)
  | v => .error (.wrongType (.ofValue v) .natural32)

/-- A value that may be absent: `null` stands for nothing. -/
def optional {α : Type} (f : Json.Value → Result α) : Json.Value → Result (Option α)
  | .null => .ok none
  | v => (f v).map some

/-- A name, alone or as the only member of an object that has nothing to say. -/
def choice {α : Type} (ofName : String → Result α) : Json.Value → Result α
  | .string s => ofName s
  | .object [(k, v)] => do
    let a ← ofName k
    match v with
    | .null | .object [] => .ok a
    | v => .error (.wrongType (.ofValue v) .nothing)
  | .object _ => .error .notOneChoice
  | v => .error (.wrongType (.ofValue v) .choice)

/-- An alignment; a name that is none means that no alignment is set. -/
def alignment (s : String) : Result Alignment :=
  match s with
  | "left" => .ok .left
  | "right" => .ok .right
  | "center" => .ok .center
  | _ => .ok .default

/-- The state of a checkbox. -/
def checkbox (s : String) : Result Checkbox :=
  match s with
  | "checked" => .ok .checked
  | "unchecked" => .ok .unchecked
  | _ => .error (.unknownCheckbox s)

/-- A dictionary of texts, on top of one that is already read. -/
def texts (d : Attributes) : List (String × Json.Value) → Result Attributes
  | [] => .ok d
  | (k, v) :: rest => do texts (d.insert k (← text v)) rest

/-- An attribute dictionary. -/
def attributes : Json.Value → Result Attributes
  | .object members => texts ∅ members
  | v => .error (.wrongType (.ofValue v) .map)

/-- The kind that a tag stands for, or nothing for a tag of no known kind. -/
def rootTag : Json.Value → Result (Option Kind)
  | .string s => .ok (Kind.ofTag? s)
  | v => .error (.wrongType (.ofValue v) .tag)

/-- The kind that a tag below the root stands for: also by its place in the order of kinds. -/
def innerTag : Json.Value → Result (Option Kind)
  | .number (.natural n) => .ok Kind.ofNodes[n.toNat]?
  | v => rootTag v

/-- The tag among the members of an object. -/
def tagAmong (tag : Json.Value → Result (Option Kind)) (members : List (String × Json.Value)) :
    Result (Option Kind) :=
  match members.filter (·.1 = "tag") with
  | [] => .error (.missingField "tag")
  | [(_, v)] => tag v
  | (_, v) :: _ => do
    let _ ← tag v
    .error (.duplicateField "tag")

/-- The members with a field set that holds no nodes. -/
def plain (f : Field) (m : Members) (v : Json.Value) : Result Members :=
  match f with
  | .children => .error (.wrongType (.ofValue v) .sequence)
  | .attributes => do return { m with attributes := ← attributes v }
  | .autoAttributes => do return { m with autoAttributes := ← attributes v }
  | .references | .autoReferences | .footnotes => .error (.wrongType (.ofValue v) .map)
  | .level => do return { m with level := ← natural32 v }
  | .head => do return { m with head := ← boolean v }
  | .align => do return { m with align := ← choice alignment v }
  | .label => do return { m with label := ← text v }
  | .text => do return { m with text := ← text v }
  | .type => do return { m with type := ← text v }
  | .lang => do return { m with lang := ← optional text v }
  | .format => do return { m with format := ← text v }
  | .symbolName => do return { m with symbolName := ← text v }
  | .destination => do return { m with destination := ← optional text v }
  | .target => do return { m with target := ← text v }
  | .reference => do return { m with reference := ← optional text v }
  | .tight => do return { m with tight := ← boolean v }
  | .style => do return { m with style := ← optional text v }
  | .start => do return { m with start := ← optional natural64 v }
  | .checkbox => do return { m with checkbox := ← choice checkbox v }

/-- Members filled with the defaults for the fields that an array does not reach. -/
def absent (s : Shape) (given : Nat) (left : List Field) (m : Members) : Result Members :=
  if left.any (some · = s.required?) then .error (.tooFewItems given s) else .ok m

mutual

/-- A node below the root. -/
def node : Json.Value → Result Node
  | .object members => do
    match ← tagAmong innerTag members with
    | none => .ok .unknown
    | some kind => return (← object kind.shape [] {} members).node kind
  | .array [] => .error (.missingField "tag")
  | .array (tag :: items) => do
    match ← innerTag tag with
    | none => if items.isEmpty then .ok .unknown else .error (.tooManyItems items.length 0)
    | some kind =>
      return (← array kind.shape items.length kind.shape.fields {} items).node kind
  | v => .error (.wrongType (.ofValue v) .node)

/-- The nodes of a list of children. -/
def nodes : List Json.Value → Result (List Node)
  | [] => .ok []
  | v :: rest => do
    let n ← node v
    return n :: (← nodes rest)

/-- The members of a record that is written as an object. `seen` are the fields already given. -/
def object (s : Shape) (seen : List Field) (m : Members) :
    List (String × Json.Value) → Result Members
  | [] =>
    match s.required? with
    | some f => if f ∈ seen then .ok m else .error (.missingField f.name)
    | none => .ok m
  | (k, v) :: rest =>
    match s.field? k with
    | none => object s seen m rest
    | some f =>
      if f ∈ seen then .error (.duplicateField f.name)
      else do object s (f :: seen) (← field f m v) rest

/-- The members of a record that is written as an array of `given` items. -/
def array (s : Shape) (given : Nat) (left : List Field) (m : Members) :
    List Json.Value → Result Members
  | [] => absent s given left m
  | v :: rest =>
    match left with
    | [] => .error (.tooManyItems given s.fields.length)
    | f :: left => do array s given left (← field f m v) rest

/-- The members with one more field set. -/
def field (f : Field) (m : Members) : Json.Value → Result Members
  | .array items =>
    match f with
    | .children => do return { m with children := ← nodes items }
    | _ => plain f m (.array items)
  | .object members =>
    match f with
    | .references => do return { m with references := ← references ∅ members }
    | .autoReferences => do return { m with autoReferences := ← references ∅ members }
    | .footnotes => do return { m with footnotes := ← footnotes [] members }
    | _ => plain f m (.object members)
  | v => plain f m v

/-- A dictionary of link targets, on top of one that is already read. -/
def references (d : References) : List (String × Json.Value) → Result References
  | [] => .ok d
  | (k, v) :: rest => do
    let m ← record .reference v
    references (d.insert k m.toReference) rest

/-- A dictionary of footnote bodies, on top of those already read. -/
def footnotes (notes : List (String × Footnote)) :
    List (String × Json.Value) → Result (List (String × Footnote))
  | [] => .ok notes
  | (k, v) :: rest => do
    let m ← record .footnote v
    footnotes (Dict.place k m.toFootnote notes) rest

/-- A record without a tag. -/
def record (s : Shape) : Json.Value → Result Members
  | .object members => object s [] {} members
  | .array items => array s items.length s.fields {} items
  | v => .error (.wrongType (.ofValue v) (.record s))

end

/-- The root node. -/
def root : Json.Value → Result Node
  | .object members => do
    match ← tagAmong rootTag members with
    | none => .ok .unknown
    | some kind => return (← object kind.shape [] {} members).node kind
  | .array [] => .error (.missingField "tag")
  | .array (tag :: items) => do
    match ← rootTag tag with
    | none => if items.isEmpty then .ok .unknown else .error (.tooManyItems items.length 0)
    | some kind =>
      return (← array kind.shape items.length kind.shape.fields {} items).node kind
  | v => .error (.wrongType (.ofValue v) .node)

/-- A tag of the root that starts with the token, if it cannot be one. -/
def badTag? (t : Json.Token) : Option DecodeError :=
  match t with
  | .string _ => none
  | t => (Found.ofToken? t).map fun f => .wrongType f .tag

/-- What is wrong with the tag of the root, as soon as a token shows it: it is no text, or it is
given a second time. -/
def watchRoot (st : Json.State) (t : Json.Token) : Option DecodeError :=
  match st with
  | .value [.object _ "tag"] => badTag? t
  | .arrayStart [] => badTag? t
  | .key members [] =>
    match t with
    | .string "tag" =>
      if members.any (·.1 = "tag") then some (.duplicateField "tag") else none
    | _ => none
  | _ => none

end Decode

/-- The tree of a JSON value. -/
def Node.ofValue (v : Json.Value) : Except DecodeError Node := Decode.root v.canonical

/-- The tree of a JSON text. What is wrong with the shape of the value is reported before what
follows the value. -/
def Node.ofText (s : String) : Except DecodeError Node :=
  match Json.State.run Json.maxDepth Decode.watchRoot (.value []) (Json.lexemes s.toList) with
  | .error (.inl f) => .error (.json f)
  | .error (.inr e) => .error e
  | .ok (v, rest) => do
    let n ← Decode.root v
    if rest.isEmpty then .ok n else .error (.json .malformed)

end DocMarkup
