import DocMarkup.Render.Single

/-!
# Endnotes

A document ends with the notes of its footnotes, in the order of their numbers. Rendering a note
may bring up labels that had no number yet; they are numbered on the spot and their notes follow.
When no numbered label is left without a note, the footnotes that nothing refers to are numbered
in the order of their labels, and the same is done for them. Each note points back to the first
reference to it.

## Main definitions

* `Rendering` : a computation that records references to footnotes.
* `Endnotes.notes` : the notes of a document.
* `Endnotes.render` : the endnotes section.
-/

namespace DocMarkup

/-- A computation that records references to footnotes as it meets them. -/
abbrev Rendering (α : Type) := StateM Numbering α

/-- Runs a computation under a numbering of its own; the numbering around it is left alone. -/
def Rendering.apart {α : Type} (own : Numbering) (a : Rendering α) : Rendering α :=
  fun outer => ((a own).1, outer)

/-- What the endnotes of a document are made from. -/
structure Endnotes where
  overrides : Overrides
  /-- The document. -/
  document : Node
  /-- The footnotes that it defines, in ascending order of labels. -/
  footnotes : List (String × Footnote)
  /-- The rendering of their bodies. -/
  bodies : List (String × Rendering (List Html))
  /-- A number that the labels in the document do not exceed. -/
  bound : Nat

namespace Endnotes

/-- The link from a note back to the text. -/
def backlink (target : String) : Html :=
  .element "a" none ((Single.single "href" ("#" ++ target)).insert "role" (.text "doc-backlink"))
    [.text "\u21a9\ufe0e"]

/-- Content with a link back at its end: inside its last node if that can hold it. -/
def appendBacklink (content : List Html) (b : Html) : List Html :=
  match content with
  | [] => [b]
  | [.element tag key props kids] => [.element tag key props (kids ++ [b])]
  | [.fragment key kids] => [.fragment key (kids ++ [b])]
  | h :: rest => h :: appendBacklink rest b

/-- The footnote of a label; one that is not defined has no content. -/
def footnote (e : Endnotes) (label : String) : Footnote :=
  (e.footnotes.lookup label).getD ⟨label, [], ∅⟩

/-- The note of the footnote with a label and a number. -/
def note (e : Endnotes) (label : String) (index : Nat) : Rendering Html := do
  let content ← (e.bodies.lookup label).getD (pure [])
  let target := (← get).backlinkTarget label index
  return Single.footnote e.overrides (e.footnote label) (some label)
    (Single.single "id" (Numbering.noteId index)) index label
    (appendBacklink content (backlink target))

/-- The notes from the place `next` in the order on, until every numbered label has its note. No
more than `fuel` notes are rendered. -/
def drain (e : Endnotes) : Nat → Nat → Rendering (List Html)
  | 0, _ => return []
  | fuel + 1, next => do
    match (← get).order[next]? with
    | none => return []
    | some label =>
      let h ← e.note label (next + 1)
      let rest ← drain e fuel (next + 1)
      return h :: rest

/-- The notes of a document. -/
def notes (e : Endnotes) : Rendering (List Html) := do
  let cited ← e.drain e.bound 0
  modify fun s => (e.footnotes.map Prod.fst).foldl Numbering.assign s
  let others ← e.drain e.bound cited.length
  return cited ++ others

/-- The endnotes section of a document, if it has notes. -/
def render (e : Endnotes) : Rendering (Option Html) := do
  let items ← e.notes
  if items.isEmpty then return none
  else
    let order := (← get).order
    return some (Single.element e.overrides "section"
      { kind := .endnotes
        node := e.document
        key := some "endnotes"
        props := Single.single "role" "doc-endnotes"
        inputs := { order := order }
        children := [.element "hr" (some "hr") ∅ [], .element "ol" (some "ol") ∅ items] })

end Endnotes

end DocMarkup
