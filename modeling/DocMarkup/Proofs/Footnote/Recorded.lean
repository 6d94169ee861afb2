import DocMarkup.Proofs.Render.DocTree
import DocMarkup.Proofs.Tree.Occurrence
import Mathlib.Data.List.Basic

/-!
# Which references are recorded

Whether a reference is recorded is told by where it stands: not inside an image, whose content is
only used as text, and not inside a document, which keeps a numbering of its own. Overrides, keys
and the lists around it have no say in this. The numbers that a document gives in advance come
from one walk over all references in its content, so rendering the content finds every label
numbered.

## Main definitions

* `Node.shields` : nodes inside which nothing is recorded.
* `Node.openLabels` : the labels of the references in a tree that stand inside no such node.
* `DocTree.HasOpenReferences` : all references in a document's content are recorded.

## Main results

* `Node.cited_eq_openLabels` : what a rendering records, told by where references stand.
* `Render.numbering_unmoved` : overrides do not change the numbering that a rendering leaves.
* `DocTree.numbering_foreseen` : the content of a document is numbered before it is rendered.
-/

namespace DocMarkup

namespace Node

/-- Whether references inside the node are no part of the numbering around it. -/
def shields : Node → Bool
  | doc .. | link .image .. => true
  | _ => false

/-- Whether the node is a reference to a footnote. -/
def isReference : Node → Bool
  | footnoteReference .. => true
  | _ => false

end Node

namespace Occurrence

/-- Whether no node that it stands in shields the occurrence. -/
def isOpen (o : Occurrence) : Bool := o.above.all (!·.shields)

/-- The label of a reference that is recorded where it stands. -/
def openLabels (o : Occurrence) : List String := if o.isOpen then o.node.ownLabels else []

theorem openLabels_below (n : Node) (o : Occurrence) :
    (o.below n).openLabels = if n.shields then [] else o.openLabels := by
  have hopen : (o.below n).isOpen = (!n.shields && o.isOpen) := rfl
  rw [openLabels, openLabels, hopen]
  cases n.shields <;> rfl

end Occurrence

namespace Node

/-- The labels of the references in a tree that stand in no image and in no document, in document
order. -/
def openLabels (n : Node) : List String := n.occurrences.flatMap (·.openLabels)

theorem ownLabels_of_isReference {n : Node} (h : n.isReference = false) : n.ownLabels = [] := by
  cases n with
  | footnoteReference => cases h
  | _ => rfl

/-- The references inside a node that shields them are left out, all others stay. -/
theorem openLabels_eq (n : Node) :
    n.openLabels = n.ownLabels ++ if n.shields then [] else n.children.flatMap openLabels := by
  rw [openLabels, occurrences_eq, List.flatMap_cons, List.flatMap_assoc]
  simp only [List.flatMap_map, Occurrence.openLabels_below]
  by_cases h : n.shields = true
  · simp [h, Occurrence.openLabels, Occurrence.isOpen]
  · simp only [h, Bool.false_eq_true, if_false]
    rfl

theorem cited_eq_ite (n : Node) :
    n.cited = n.ownLabels ++ if n.shields then [] else citedAll n.children := by
  cases n with
  | link k => cases k <;> rfl
  | footnote note => cases note; rfl
  | _ => rfl

/-- What a rendering records are the references in the tree that nothing shields. -/
theorem cited_eq_openLabels (n : Node) : n.cited = n.openLabels := by
  induction n using induction_children with
  | step n ih =>
    rw [cited_eq_ite, openLabels_eq, citedAll_eq_flatMap, List.flatMap_congr ih]

/-- What is numbered in advance are all references in the tree. -/
theorem mentions_eq_flatMap_occurrences (n : Node) :
    n.mentions = n.occurrences.flatMap (·.node.ownLabels) := by
  induction n using induction_children with
  | step n ih =>
    rw [mentions_eq, mentionsAll_eq_flatMap, occurrences_eq, List.flatMap_cons,
      List.flatMap_congr ih, List.flatMap_assoc]
    simp only [List.flatMap_map]
    rfl

/-- If nothing shields a reference, what is recorded is what is numbered in advance. -/
theorem openLabels_eq_mentions {n : Node}
    (h : ∀ o ∈ n.occurrences, o.node.isReference = true → o.isOpen = true) :
    n.openLabels = n.mentions := by
  rw [openLabels, mentions_eq_flatMap_occurrences]
  refine List.flatMap_congr fun o ho => ?_
  rw [Occurrence.openLabels]
  cases hr : o.node.isReference with
  | true => rw [if_pos (h o ho hr)]
  | false => rw [ownLabels_of_isReference hr, ite_self]

end Node

/-! ### Overrides and the numbering -/

namespace Render

/-- **Overrides do not change the numbering.** The numbering after a node is the same for any two
override maps: it is the one before with the references recorded that stand in the node, itself
counted, in document order, but for those in an image or in a document. A document leaves the
numbering around it as it was. -/
theorem numbering_unmoved (ov ov' : Overrides) (links : Links) (key : Option String)
    (tight : Option Bool) (n : Node) (σ : Numbering) :
    (node ⟨ov, links⟩ key tight n σ).2 = (node ⟨ov', links⟩ key tight n σ).2 ∧
      (node ⟨ov, links⟩ key tight n σ).2 = n.openLabels.foldl Numbering.record σ ∧
      ∀ kids attrs refs auto notes,
        (node ⟨ov, links⟩ key tight (.doc kids attrs refs auto notes) σ).2 = σ := by
  refine ⟨?_, ?_, fun kids attrs refs auto notes => ?_⟩
  · rw [node_snd, node_snd]
  · rw [node_snd, Node.cited_eq_openLabels]
  · rw [node_doc_run]

end Render

/-! ### Numbers given in advance -/

namespace DocTree

/-- No reference in the document's content stands in an image or in a document inside. -/
def HasOpenReferences (d : DocTree) : Prop :=
  ∀ n ∈ d.children, ∀ o ∈ n.occurrences, o.node.isReference = true → o.isOpen = true

/-- The labels of all references in the document's content, in document order. -/
def referenceLabels (d : DocTree) : List String :=
  d.children.flatMap fun n => n.occurrences.flatMap (·.node.ownLabels)

variable {d : DocTree}

theorem mentions_eq_referenceLabels : d.mentions = d.referenceLabels := by
  rw [mentions, Node.mentionsAll_eq_flatMap]
  exact List.flatMap_congr fun n _ => n.mentions_eq_flatMap_occurrences

theorem HasOpenReferences.recorded_content (h : d.HasOpenReferences) (ov : Overrides) :
    (d.content ov).2.recorded = d.mentions := by
  rw [DocTree.recorded_content, mentions, Node.citedAll_eq_flatMap, Node.mentionsAll_eq_flatMap]
  exact List.flatMap_congr fun n hn => by
    rw [Node.cited_eq_openLabels, Node.openLabels_eq_mentions (h n hn)]

/-- **The content of a document is numbered before it is rendered**, by the first occurrences of
labels in document order. Rendering the content gives no label a number: the order and the numbers
stay, and every reference that is recorded was numbered before. If nothing shields a reference, the
labels come to be recorded in the order of their numbers. -/
theorem numbering_foreseen (d : DocTree) (ov : Overrides) :
    let before := Numbering.ofLabels d.mentions
    let after := (d.content ov).2
    before.order = d.referenceLabels.eraseDups ∧
      after.order = before.order ∧
      (∀ label, after.indexOf? label = before.indexOf? label) ∧
      (∀ label ∈ after.recorded, (before.indexOf? label).isSome = true) ∧
      (d.HasOpenReferences → after.recorded.eraseDups = before.order) := by
  intro before after
  have hbefore : before.order = d.mentions.eraseDups := Numbering.order_ofLabels d.mentions
  have hafter : after.order = before.order := by rw [hbefore, d.order_content ov]
  refine ⟨?_, hafter, fun label => ?_, fun label hl => ?_, fun h => ?_⟩
  · rw [hbefore, mentions_eq_referenceLabels]
  · rw [Numbering.indexOf?, Numbering.indexOf?, hafter]
  · have hmention : label ∈ d.mentions := by
      rw [d.recorded_content ov] at hl
      exact Node.citedAll_subset_mentionsAll d.children hl
    rw [Numbering.indexOf?, hbefore, idxOf?_eq_some_idxOf (List.mem_eraseDups.2 hmention)]
    rfl
  · rw [h.recorded_content ov, hbefore]

/-- A document with references in a tight list, in the second caption of a table and in a heading,
and with an image and a document inside that hold none. -/
def scattered : DocTree where
  children :=
    [.list .bullet true none
      [.container .listItem
        [.container .para [.footnoteReference "b" ∅, .footnoteReference "a" ∅] ∅ ∅] ∅ ∅] ∅,
    .container .table
      [.row false [.cell false .left [.footnoteReference "c" ∅] ∅] ∅,
      .container .caption [] ∅ ∅,
      .container .caption [.footnoteReference "b" ∅] ∅ ∅] ∅ ∅,
    .link .image none none [.literal .str "picture" ∅] ∅,
    .doc [.container .para [] ∅ ∅] ∅ ∅ ∅ [],
    .heading 1 [.footnoteReference "d" ∅] ∅ ∅]
  attributes := ∅
  references := ∅
  autoReferences := ∅
  footnotes := ∅

theorem numbering_foreseen_scattered :
    scattered.HasOpenReferences ∧
      (scattered.content ∅).2.recorded.eraseDups = ["b", "a", "c", "d"] := by
  have hopen : scattered.HasOpenReferences := by
    unfold HasOpenReferences
    decide +kernel
  have horder : (Numbering.ofLabels scattered.mentions).order = ["b", "a", "c", "d"] := by decide
  exact ⟨hopen, horder ▸ (numbering_foreseen scattered ∅).2.2.2.2 hopen⟩

end DocTree

end DocMarkup
