import DocMarkup.Proofs.Render.Interchange
import Mathlib.Logic.Relation

/-!
# Nodes of kinds that are not known

A node of a kind that is not known renders to nothing, but it is one of the children of its parent.
It counts as a sibling where keys are given, where the first caption and the rows of a table are
looked for, where a caption, a cell or the text of an image could be empty, and where the link back
of a note looks for the last node. None of this is written, so such nodes can be left out anywhere,
in the bodies of footnotes too. The one place where it matters whether they are there is an item of
a tight list: a paragraph gives way to its content only if it is the item's only child.

## Main definitions

* `Node.LosesUnknown` : a node that loses an unknown child, or one in the body of a footnote.
* `Node.Thins` : a tree with some of its unknown nodes left out.

## Main results

* `Render.interchangeable_of_losesUnknown` : one unknown node is left out.
* `Render.renderMarkup_of_thins` : the markup under overrides that only name tags.
* `Render.renderMarkup_thinned` : the markup without overrides.
-/

namespace DocMarkup

namespace Node

/-- A node without one of its children, or without a node in the body of one of its footnotes, of a
kind that is not known. The children of an item in a tight list all stay. -/
inductive LosesUnknown : Option Bool → Node → Node → Prop
  | child {tight} (n : Node) (before after : List Node)
      (h : n.isItem = true → tight ≠ some true) :
      LosesUnknown tight (n.holding (before ++ unknown :: after)) (n.holding (before ++ after))
  | body {tight} (kids : List Node) (attrs : Attributes) (refs auto : References)
      (earlier later : List (String × Footnote)) (key label : String) (before after : List Node)
      (own : Attributes) :
      LosesUnknown tight
        (doc kids attrs refs auto
          (earlier ++ (key, ⟨label, before ++ unknown :: after, own⟩) :: later))
        (doc kids attrs refs auto (earlier ++ (key, ⟨label, before ++ after, own⟩) :: later))

/-- A tree with some nodes of kinds that are not known left out, one after the other; the root and
the children of items in tight lists stay. -/
def Thins : Node → Node → Prop := Relation.ReflTransGen (Somewhere LosesUnknown none)

end Node

namespace Render

variable {ov : Overrides} {g : Option String → Option String} {tight : Option Bool} {n n' : Node}

/-- Without one unknown node, a node can stand for itself, where keys are forgotten. -/
theorem interchangeable_of_losesUnknown (hov : ov.onlyTags = true)
    (hg : ∀ key key', g key = g key') (h : n.LosesUnknown tight n') :
    Interchangeable ov g tight n n' := by
  cases h with
  | child n before after hitem =>
    exact (allInterchangeable_unknown hov hg before after).holding hov
      fun hn htight => absurd htight (hitem hn)
  | body kids attrs refs auto earlier later key label before after own =>
    have hnote : NoteInterchangeable ov g ⟨label, before ++ .unknown :: after, own⟩
        ⟨label, before ++ after, own⟩ := ⟨rfl, allInterchangeable_unknown hov hg before after⟩
    exact (AllInterchangeable.refl kids).document hov (.replace hnote earlier later key) attrs refs
      auto

/-- Leaving out unknown nodes changes nothing of the markup, also under overrides that only name
tags. -/
theorem renderMarkup_of_thins (hov : ov.onlyTags = true) (h : n.Thins n') :
    n.renderMarkup ov = n'.renderMarkup ov := by
  induction h with
  | refl => rfl
  | tail _ hstep ih =>
    have hsame := Interchangeable.of_somewhere (g := fun _ => none) hov
      (fun tight m m' hm => interchangeable_of_losesUnknown hov (fun _ _ => rfl) hm) hstep
    have hmarkup (o : Option Html) :
        ((o.map (Html.relabel id fun _ => none)).map Html.markup).getD "" =
          (o.map Html.markup).getD "" := by
      cases o with
      | none => rfl
      | some h => exact congrArg String.ofList h.chars_relabel
    rw [ih, Node.renderMarkup, Node.renderMarkup, Node.render, Node.render, ← hmarkup,
      hsame.output {} none {}, hmarkup]

/-- **Nodes of kinds that are not known are not noticed.** A tree without some of them has the same
markup, wherever in it they were, but for the root and for the children of items that stand directly
in a tight list. -/
theorem renderMarkup_thinned (h : n.Thins n') : n.renderMarkup ∅ = n'.renderMarkup ∅ :=
  renderMarkup_of_thins rfl h

/-- A document with nodes, as given, among the children of a table, in its caption, in an item of a
loose list, in the text of an image and at the end of a footnote. -/
def sprinkled (table caption item image note : List Node) : Node :=
  .doc
    [.container .table (table ++ [.container .caption caption ∅ ∅,
        .row false [.cell false .default [.literal .str "c" ∅] ∅] ∅]) ∅ ∅,
      .list .bullet false none
        [.container .listItem (item ++ [.container .para [.literal .str "t" ∅] ∅ ∅]) ∅ ∅] ∅,
      .container .para [.link .image (some "i") none (.literal .str "a" ∅ :: image) ∅,
        .footnoteReference "f" ∅] ∅ ∅]
    ∅ ∅ ∅ [("f", ⟨"f", .container .para [.raw .inline "html" "<b>r</b>" ∅] ∅ ∅ :: note, ∅⟩)]

theorem renderMarkup_thinned_sprinkled :
    (sprinkled [.unknown] [.unknown] [.unknown] [.unknown] [.unknown]).Thins
        (sprinkled [] [] [] [] []) ∧
      (sprinkled [.unknown] [.unknown] [.unknown] [.unknown] [.unknown]).renderMarkup ∅ =
        (sprinkled [] [] [] [] []).renderMarkup ∅ := by
  have hthins : (sprinkled [.unknown] [.unknown] [.unknown] [.unknown] [.unknown]).Thins
      (sprinkled [] [] [] [] []) := by
    refine .tail (b := sprinkled [] [] [] [] [.unknown]) (.tail
      (b := sprinkled [] [] [] [.unknown] [.unknown]) (.tail
        (b := sprinkled [] [] [.unknown] [.unknown] [.unknown]) (.tail
          (b := sprinkled [] [.unknown] [.unknown] [.unknown] [.unknown])
          (.tail .refl ?_) ?_) ?_) ?_) ?_
    · exact .child (.doc [] ∅ ∅ ∅ _) [] _
        (.here (.child (.container .table [] ∅ ∅) [] _ nofun))
    · exact .child (.doc [] ∅ ∅ ∅ _) [] _ (.child (.container .table [] ∅ ∅) [] [_]
        (.here (.child (.container .caption [] ∅ ∅) [] [] nofun)))
    · exact .child (.doc [] ∅ ∅ ∅ _) [_] [_] (.child (.list .bullet false none [] ∅) [] []
        (.here (.child (.container .listItem [] ∅ ∅) [] [_] nofun)))
    · exact .child (.doc [] ∅ ∅ ∅ _) [_, _] [] (.child (.container .para [] ∅ ∅) [] [_]
        (.here (.child (.link .image (some "i") none [] ∅) [_] [] nofun)))
    · exact .here (.body _ ∅ ∅ ∅ [] [] "f" "f" [_] [] ∅)
  exact ⟨hthins, renderMarkup_thinned hthins⟩

/-- In an item of a tight list, a paragraph is shown as one if an unknown node is beside it. -/
example :
    let list (kids : List Node) : Node :=
      .list .bullet true none
        [.container .listItem (.container .para [.literal .str "t" ∅] ∅ ∅ :: kids) ∅ ∅] ∅
    (list []).renderMarkup ∅ = "<ul><li>t</li></ul>" ∧
      (list [.unknown]).renderMarkup ∅ = "<ul><li><p>t</p></li></ul>" := by
  decide +kernel

end Render

end DocMarkup
