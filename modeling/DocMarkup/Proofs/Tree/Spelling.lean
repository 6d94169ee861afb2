import DocMarkup.Json.Value
import DocMarkup.Tree.Node
import Mathlib.Data.List.Forall2

/-!
# Spellings of a tree

The JSON values that spell a tree. A node is an object with its tag and the members that its kind
declares, in any order and among others, or an array of its tag and the members in the order of
their declaration. A member that is declared with a default may be left out where it holds that; in
an array this goes for members at the end. A dictionary is an object with its keys in any order. A
node of no known kind is spelled by every object whose tag is no known one.

This is what the format says, in terms of trees and values alone: it does not speak of how a value
is read.

## Main definitions

* `Member` : a member that a record declares, with the values that spell it.
* `SpellsTagged`, `SpellsRecord` : records with a tag and without.
* `SpellsDictionary` : dictionaries.
* `Node.SpelledBy` : the values that spell a node.
-/

namespace DocMarkup

/-- Members of an object. -/
abbrev JsonMembers := List (String × Json.Value)

/-! ### Records and dictionaries -/

/-- A member that a record declares. -/
structure Member where
  name : String
  /-- The values that spell what the member holds. -/
  IsSpelling : Json.Value → Prop
  /-- Whether the member may be left out, holding its default. -/
  MayLack : Prop

/-- The members of an object spell those that a record declares. Members of other names may have
any value. -/
structure SpelledAmong (declared : List Member) (members : JsonMembers) : Prop where
  nodup : (members.map Prod.fst).Nodup
  given_or_lacking : ∀ m ∈ declared, (∃ v, (m.name, v) ∈ members ∧ m.IsSpelling v) ∨
    (m.MayLack ∧ m.name ∉ members.map Prod.fst)

/-- The items of an array spell the members that a record declares, in their order. -/
def SpelledInOrder : List Member → List Json.Value → Prop
  | declared, [] => ∀ m ∈ declared, m.MayLack
  | [], _ :: _ => False
  | m :: declared, v :: items => m.IsSpelling v ∧ SpelledInOrder declared items

/-- The values that spell a record with a tag. -/
inductive SpellsTagged (tag : String) (declared : List Member) : Json.Value → Prop
  | object {members : JsonMembers} (htag : ("tag", .string tag) ∈ members)
      (h : SpelledAmong declared members) : SpellsTagged tag declared (.object members)
  | array {items : List Json.Value} (h : SpelledInOrder declared items) :
      SpellsTagged tag declared (.array (.string tag :: items))

/-- The values that spell a record without a tag. -/
inductive SpellsRecord (declared : List Member) : Json.Value → Prop
  | object {members : JsonMembers} (h : SpelledAmong declared members) :
      SpellsRecord declared (.object members)
  | array {items : List Json.Value} (h : SpelledInOrder declared items) :
      SpellsRecord declared (.array items)

/-- The members spell the entries of a dictionary, one each and in their order. -/
def SpelledEntries {α : Type} (Spells : α → Json.Value → Prop) :
    List (String × α) → JsonMembers → Prop :=
  List.Forall₂ fun e m => m.1 = e.1 ∧ Spells e.2 m.2

/-- The values that spell a dictionary: objects with its entries in any order. `entries` says what
spells the entries in their own order. -/
inductive SpellsDictionary (entries : JsonMembers → Prop) : Json.Value → Prop
  | mk {members ordered : JsonMembers} (hperm : members.Perm ordered) (h : entries ordered) :
      SpellsDictionary entries (.object members)

/-- The objects that spell a node of no known kind. -/
inductive SpellsUnknown : Json.Value → Prop
  | mk {tag : String} {members : JsonMembers} (hnodup : (members.map Prod.fst).Nodup)
      (htag : ("tag", .string tag) ∈ members) (hunknown : tag ∉ Kind.ofNodes.map Kind.name) :
      SpellsUnknown (.object members)

/-! ### Members -/

/-- The values that spell an alignment. Where none is set, any word that names none will do. -/
def Alignment.IsSpelling (a : Alignment) (v : Json.Value) : Prop :=
  match a with
  | left => v = .string "left"
  | right => v = .string "right"
  | center => v = .string "center"
  | default => ∃ word, v = .string word ∧ word ∉ ["left", "right", "center"]

/-- The word for a state of a checkbox. -/
def Checkbox.word : Checkbox → String
  | checked => "checked"
  | unchecked => "unchecked"

namespace Member

/-- A text that must be given. -/
def required (name text : String) : Member := ⟨name, (· = .string text), False⟩

/-- A text, by default empty. -/
def text (name text : String) : Member := ⟨name, (· = .string text), text = ""⟩

/-- A text that may be absent. -/
def optional (name : String) (text : Option String) : Member :=
  ⟨name, (· = text.elim .null .string), text = none⟩

/-- A truth value, by default false. -/
def flag (name : String) (b : Bool) : Member := ⟨name, (· = .bool b), b = false⟩

/-- The level of a heading. -/
def level (n : UInt32) : Member := ⟨"level", (· = .number (.natural n.toUInt64)), False⟩

/-- The first number of an ordered list. -/
def start (n : Option UInt64) : Member :=
  ⟨"start", (· = n.elim .null fun n => .number (.natural n)), n = none⟩

/-- The alignment of a cell. -/
def align (a : Alignment) : Member := ⟨"align", a.IsSpelling, a = .default⟩

/-- The state of a checkbox. -/
def checkbox (c : Checkbox) : Member :=
  ⟨"checkbox", (· = .string c.word), c = .unchecked⟩

/-- A dictionary of texts. -/
def attributes (name : String) (attrs : Attributes) : Member where
  name := name
  IsSpelling := SpellsDictionary (SpelledEntries (fun text v => v = .string text) attrs.entries)
  MayLack := attrs = ∅

/-- The members of a reference. -/
def ofReference (r : Reference) : List Member :=
  [text "label" r.label, text "destination" r.destination, attributes "attributes" r.attributes]

/-- A dictionary of references. -/
def references (name : String) (refs : References) : Member where
  name := name
  IsSpelling :=
    SpellsDictionary (SpelledEntries (fun r => SpellsRecord (ofReference r)) refs.entries)
  MayLack := refs = ∅

/-- The children of a node. `items` says what spells them in an array. -/
def children (kids : List Node) (items : List Json.Value → Prop) : Member where
  name := "children"
  IsSpelling := fun v => ∃ l, v = .array l ∧ items l
  MayLack := kids = []

/-- The footnotes of a document: a dictionary, and so listed by ascending key. `entries` says what
spells them in that order. -/
def footnotes (notes : List (String × Footnote)) (entries : JsonMembers → Prop) : Member where
  name := "footnotes"
  IsSpelling := fun v =>
    (notes.map Prod.fst).Pairwise (· < ·) ∧ SpellsDictionary entries v
  MayLack := notes = []

/-- The members of a footnote. `items` says what spells its children. -/
def ofFootnote (label : String) (kids : List Node) (attrs : Attributes)
    (items : List Json.Value → Prop) : List Member :=
  [required "label" label, children kids items, attributes "attributes" attrs]

end Member

/-! ### Nodes -/

open Member in
mutual

/-- The value spells the node. -/
def Node.SpelledBy : Node → Json.Value → Prop
  | .doc kids attrs refs auto notes =>
    SpellsTagged "doc" [children kids (allSpelledBy kids), attributes "attributes" attrs,
      references "references" refs, references "autoReferences" auto,
      footnotes notes (notesSpelledBy notes)]
  | .container k kids attrs auto =>
    SpellsTagged k.name [children kids (allSpelledBy kids), attributes "attributes" attrs,
      attributes "autoAttributes" auto]
  | .heading n kids attrs auto =>
    SpellsTagged "heading" [level n, children kids (allSpelledBy kids),
      attributes "attributes" attrs, attributes "autoAttributes" auto]
  | .row head kids attrs =>
    SpellsTagged "row" [flag "head" head, children kids (allSpelledBy kids),
      attributes "attributes" attrs]
  | .cell head a kids attrs =>
    SpellsTagged "cell" [flag "head" head, align a, children kids (allSpelledBy kids),
      attributes "attributes" attrs]
  | .footnoteReference label attrs =>
    SpellsTagged "footnote_reference" [text "text" label, attributes "attributes" attrs]
  | .footnote ⟨label, kids, attrs⟩ =>
    SpellsTagged "footnote" (ofFootnote label kids attrs (allSpelledBy kids))
  | .smartPunctuation type s attrs =>
    SpellsTagged "smart_punctuation" [required "type" type, text "text" s,
      attributes "attributes" attrs]
  | .literal k s attrs =>
    SpellsTagged k.name [text "text" s, attributes "attributes" attrs]
  | .codeBlock lang s attrs =>
    SpellsTagged "code_block" [optional "lang" lang, text "text" s, attributes "attributes" attrs]
  | .raw k format s attrs =>
    SpellsTagged (Kind.raw k).name [required "format" format, text "text" s,
      attributes "attributes" attrs]
  | .symb name attrs =>
    SpellsTagged "symb" [required "alias" name, attributes "attributes" attrs]
  | .link k destination reference kids attrs =>
    SpellsTagged (Kind.link k).name [optional "destination" destination,
      optional "reference" reference, children kids (allSpelledBy kids),
      attributes "attributes" attrs]
  | .list k tight style kids attrs =>
    SpellsTagged (Kind.list k).name [flag "tight" tight, optional "style" style,
      children kids (allSpelledBy kids), attributes "attributes" attrs]
  | .orderedList tight style first kids attrs =>
    SpellsTagged "ordered_list" [flag "tight" tight, optional "style" style, start first,
      children kids (allSpelledBy kids), attributes "attributes" attrs]
  | .taskListItem state kids attrs =>
    SpellsTagged "task_list_item" [checkbox state, children kids (allSpelledBy kids),
      attributes "attributes" attrs]
  | .leaf k attrs => SpellsTagged k.name [attributes "attributes" attrs]
  | .unknown => SpellsUnknown

/-- The values spell the nodes, one each. -/
def allSpelledBy : List Node → List Json.Value → Prop
  | [], items => items = []
  | n :: rest, items => ∃ v more, items = v :: more ∧ n.SpelledBy v ∧ allSpelledBy rest more

/-- The members spell the footnotes, one each. -/
def notesSpelledBy : List (String × Footnote) → JsonMembers → Prop
  | [], members => members = []
  | (key, ⟨label, kids, attrs⟩) :: rest, members =>
    ∃ v more, members = (key, v) :: more ∧
      SpellsRecord (ofFootnote label kids attrs (allSpelledBy kids)) v ∧ notesSpelledBy rest more

end

end DocMarkup
