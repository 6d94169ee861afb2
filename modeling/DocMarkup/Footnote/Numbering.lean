import DocMarkup.Decimal.Natural
import DocMarkup.Tree.Node

/-!
# Numbers of footnotes

Footnotes are numbered from 1 in the order in which their labels first come up. A label's number
never changes. Each rendered reference to a footnote is recorded, and has an identifier of its own
that tells how many references to that footnote came before it.

## Main definitions

* `Numbering` : the labels in the order of their numbers, and the references recorded so far.
* `Numbering.assign`, `Numbering.indexOf?`, `Numbering.record` : its operations.
* `Numbering.backlinkTarget` : where the note of a label points back to.
* `Node.mentions` : the labels of the references in a tree, in document order.
-/

namespace DocMarkup

/-- The state of footnote numbering. -/
structure Numbering where
  /-- The numbered labels; the number of a label is its place, from 1. -/
  order : List String := []
  /-- The labels of the recorded references, in the order of recording. -/
  recorded : List String := []
  deriving DecidableEq, Repr

/-- What a rendered reference shows. -/
structure Anchor where
  index : Nat
  id : String
  href : String
  deriving DecidableEq, Repr

namespace Numbering

/-- The number of a label, if it has one. -/
def indexOf? (s : Numbering) (label : String) : Option Nat :=
  (s.order.idxOf? label).map (· + 1)

/-- Gives the label a number, unless it has one. -/
def assign (s : Numbering) (label : String) : Numbering :=
  if label ∈ s.order then s else { s with order := s.order ++ [label] }

/-- The number of a label, the next free one if it has none yet. -/
def index (s : Numbering) (label : String) : Nat :=
  (s.indexOf? label).getD (s.order.length + 1)

/-- The numbering in which the labels come up in that order. -/
def ofLabels (labels : List String) : Numbering := labels.foldl assign {}

/-- The identifier of the `n`-th reference to the footnote numbered `index`. -/
def referenceId (index n : Nat) : String :=
  if n = 1 then "fnref" ++ Decimal.text index
  else "fnref" ++ Decimal.text index ++ "-" ++ Decimal.text n

/-- The identifier of the footnote numbered `index`. -/
def noteId (index : Nat) : String := "fn" ++ Decimal.text index

/-- Records a reference; the label gets a number if it has none. -/
def record (s : Numbering) (label : String) : Numbering :=
  { s.assign label with recorded := s.recorded ++ [label] }

/-- What the next recorded reference to the label shows. -/
def anchor (s : Numbering) (label : String) : Anchor where
  index := s.index label
  id := referenceId (s.index label) (s.recorded.count label + 1)
  href := "#" ++ noteId (s.index label)

/-- The identifier that the note of a label points back to: that of the first reference recorded
to it, or the one that a first reference to the footnote numbered `index` would get. -/
def backlinkTarget (s : Numbering) (label : String) (index : Nat) : String :=
  referenceId (if label ∈ s.recorded then s.index label else index) 1

end Numbering

namespace Node

mutual

/-- The labels of the references in a tree, in document order. The bodies of footnotes that a
document keeps apart do not count. -/
def mentions : Node → List String
  | footnoteReference label _ => [label]
  | doc kids .. => mentionsAll kids
  | container _ kids .. => mentionsAll kids
  | heading _ kids .. => mentionsAll kids
  | row _ kids _ => mentionsAll kids
  | cell _ _ kids _ => mentionsAll kids
  | footnote ⟨_, kids, _⟩ => mentionsAll kids
  | link _ _ _ kids _ => mentionsAll kids
  | list _ _ _ kids _ => mentionsAll kids
  | orderedList _ _ _ kids _ => mentionsAll kids
  | taskListItem _ kids _ => mentionsAll kids
  | smartPunctuation .. | literal .. | codeBlock .. | raw .. | symb .. | leaf .. | unknown => []

/-- The labels of the references in several trees, in order. -/
def mentionsAll : List Node → List String
  | [] => []
  | n :: rest => n.mentions ++ mentionsAll rest

end

end Node

end DocMarkup
