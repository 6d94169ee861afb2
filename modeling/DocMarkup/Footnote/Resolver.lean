import DocMarkup.Footnote.Numbering
import DocMarkup.OrderedMap

/-!
# The tables of footnotes

What is kept of footnotes while a document is rendered: a table of the numbers of labels beside
their order, how many references to each label have been recorded, and the identifier that the
first of them got. Each call reads one table and writes others.

## Main definitions

* `Resolver` : the tables.
* `Resolver.assign`, `Resolver.indexOf?`, `Resolver.record` : the operations on them.
* `Resolver.backlinkTarget` : where the note of a label points back to.
* `Resolver.ofLabels` : the tables that a document starts with.
-/

namespace DocMarkup

/-- What is kept of the footnotes of a document while it is rendered. -/
structure Resolver where
  /-- The number of each label that has one. -/
  numbers : OrderedMap String Nat := ∅
  /-- The labels in the order of their numbers. -/
  order : List String := []
  /-- How many references to a label have been recorded. -/
  counts : OrderedMap String Nat := ∅
  /-- The identifier of the first reference to a label that was recorded. -/
  firstIds : OrderedMap String String := ∅

namespace Resolver

/-- The number of a label, which is the next one if it had none before, with the tables after
that. -/
def assign (r : Resolver) (label : String) : Nat × Resolver :=
  match r.numbers.get? label with
  | some index => (index, r)
  | none =>
    let order := r.order ++ [label]
    (order.length, { r with order, numbers := r.numbers.insert label order.length })

/-- The number of a label, if it has one. -/
def indexOf? (r : Resolver) (label : String) : Option Nat := r.numbers.get? label

/-- Records a reference. The label gets a number if it had none, and the identifier of the reference
is kept if there is none of an earlier one. -/
def record (r : Resolver) (label : String) : Anchor × Resolver :=
  let (index, r) := r.assign label
  let count := (r.counts.get? label).getD 0 + 1
  let id := Numbering.referenceId index count
  let firstIds := if r.firstIds.contains label then r.firstIds else r.firstIds.insert label id
  (⟨index, id, "#" ++ Numbering.noteId index⟩,
    { r with counts := r.counts.insert label count, firstIds })

/-- The identifier that the note of a label points back to: the one kept of the first reference, or
that of a first reference to the footnote numbered `index`. -/
def backlinkTarget (r : Resolver) (label : String) (index : Nat) : String :=
  (r.firstIds.get? label).getD ("fnref" ++ Decimal.text index)

/-- The tables in which labels have got their numbers in that order. -/
def ofLabels (labels : List String) : Resolver :=
  labels.foldl (fun r label => (r.assign label).2) {}

end Resolver

end DocMarkup
