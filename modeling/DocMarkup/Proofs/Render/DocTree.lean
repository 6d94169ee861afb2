import DocMarkup.Proofs.Dict
import DocMarkup.Proofs.Footnote.Citation
import DocMarkup.Proofs.Footnote.Draining

/-!
# Documents

A document with its footnotes as a dictionary, and how it is rendered: its content under a
numbering of what it mentions, then its endnotes. The content records no label that the document
does not mention, and the note of a label records what the body of the footnote cites.

## Main definitions

* `DocTree`, `DocTree.node` : a document, as a node.
* `DocTree.content`, `DocTree.endnotes` : the rendering of its content, and what its endnotes are
  made from.
* `DocTree.output` : its output.
* `DocTree.mentions`, `DocTree.cites` : the labels that its content mentions, and those that the
  body of a footnote cites.

## Main results

* `DocTree.node_run` : the rendering of a document.
* `DocTree.note_run` : the rendering of a note.
* `DocTree.cites_endnotes`, `DocTree.order_content` : what notes and the content record.
-/

namespace DocMarkup

namespace Render

variable {s : Setting}

theorem lookup_bodies (notes : List (String × Footnote)) (label : String) :
    (bodies s notes).lookup label =
      (notes.lookup label).map fun f => present <$> each s none 0 f.children := by
  induction notes with
  | nil =>
    rw [bodies]
    rfl
  | cons e notes ih =>
    obtain ⟨key, own, kids, attrs⟩ := e
    rw [bodies, List.lookup_cons, List.lookup_cons, ih]
    split <;> rfl

variable {ov : Overrides} {kids : List Node} {attrs : Attributes} {refs auto : References}

/-- The body of the footnote of a label; one that is not defined has none. -/
def bodyOf (notes : List (String × Footnote)) (label : String) : List Node :=
  ((notes.lookup label).map Footnote.children).getD []

/-- The rendering of the body of the footnote of a label. -/
theorem lookup_bodies_getD (notes : List (String × Footnote)) (label : String) :
    ((bodies s notes).lookup label).getD (pure []) =
      present <$> each s none 0 (bodyOf notes label) := by
  rw [lookup_bodies, bodyOf]
  cases notes.lookup label with
  | none =>
    rw [Option.map_none, Option.map_none, Option.getD_none, Option.getD_none, each]
    rfl
  | some f => rfl

/-- The rendering of a note of a document: first the body of the footnote, then its item with the
link back. -/
theorem note_endnotesOf_run (notes : List (String × Footnote)) (label : String) (index : Nat)
    (σ : Numbering) :
    (endnotesOf ov kids attrs refs auto notes).note label index σ =
      let body := each ⟨ov, ⟨refs, auto⟩⟩ none 0 (bodyOf notes label) σ
      (Single.footnote ov ((endnotesOf ov kids attrs refs auto notes).footnote label) (some label)
        (Single.single "id" (Numbering.noteId index)) index label
        (Endnotes.appendBacklink (present body.1)
          (Endnotes.backlink (body.2.backlinkTarget label index))), body.2) := by
  rw [Endnotes.note, endnotesOf, lookup_bodies_getD]
  rfl

/-- The note of a label records what the body of its footnote cites. -/
theorem cites_endnotesOf (notes : List (String × Footnote)) :
    (endnotesOf ov kids attrs refs auto notes).Cites fun label =>
      Node.citedAll (bodyOf notes label) := by
  intro label index σ
  rw [note_endnotesOf_run]
  exact each_snd _ 0

end Render

/-- A document. -/
structure DocTree where
  children : List Node
  attributes : Attributes
  references : References
  autoReferences : References
  /-- The bodies of its footnotes by label. -/
  footnotes : Dict Footnote

namespace DocTree

/-- The document as a node. -/
def node (d : DocTree) : Node :=
  .doc d.children d.attributes d.references d.autoReferences d.footnotes.entries

/-- The body of the footnote of a label; one that is not defined has none. -/
def body (d : DocTree) (label : String) : List Node :=
  ((d.footnotes.get? label).map Footnote.children).getD []

/-- The labels of the references in the document's content. -/
def mentions (d : DocTree) : List String := Node.mentionsAll d.children

/-- The labels of the references that are rendered in the body of a footnote. -/
def cites (d : DocTree) (label : String) : List String := Node.citedAll (d.body label)

/-- What stays the same while the document is rendered. -/
def setting (d : DocTree) (ov : Overrides) : Render.Setting :=
  ⟨ov, ⟨d.references, d.autoReferences⟩⟩

/-- The rendering of the document's content: its outputs, and the numbering that the endnotes
start from. -/
def content (d : DocTree) (ov : Overrides) : List (Option Html) × Numbering :=
  Render.each (d.setting ov) none 0 d.children (Numbering.ofLabels d.mentions)

/-- What the endnotes of the document are made from. -/
def endnotes (d : DocTree) (ov : Overrides) : Endnotes :=
  ⟨ov, d.node, d.footnotes.entries, Render.bodies (d.setting ov) d.footnotes.entries,
    Render.labelBound d.children d.footnotes.entries⟩

section Forall

variable {d : DocTree}

/-- What holds of the attributes of all references holds of those that links find. -/
theorem forall_links {P : Attributes → Prop} (h : ∀ e ∈ d.references.entries, P e.2.attributes)
    (hauto : ∀ e ∈ d.autoReferences.entries, P e.2.attributes) (ov : Overrides) (label : String)
    (r : Reference) (hr : (d.setting ov).links.lookup? label = some r) : P r.attributes := by
  rcases Option.or_eq_some_iff.1 hr with hr | ⟨-, hr⟩
  · exact h _ (Dict.get?_eq_some_iff.1 hr)
  · exact hauto _ (Dict.get?_eq_some_iff.1 hr)

/-- What holds of all nodes in footnotes holds of those in the body of a footnote. -/
theorem forall_body {P : Node → Prop}
    (h : ∀ e ∈ d.footnotes.entries, ∀ n ∈ Node.forest e.2.children, P n) (label : String) :
    ∀ n ∈ Node.forest (d.body label), P n := by
  rw [body]
  cases hlookup : d.footnotes.get? label with
  | none => exact fun n hn => absurd hn List.not_mem_nil
  | some f => exact h _ (Dict.get?_eq_some_iff.1 hlookup)

/-- What holds of the attributes of all footnotes, and without attributes, holds of those that a
note is made from. -/
theorem forall_footnote {P : Attributes → Prop} (hempty : P ∅)
    (h : ∀ e ∈ d.footnotes.entries, P e.2.attributes) (ov : Overrides) (label : String) :
    P ((d.endnotes ov).footnote label).attributes := by
  change P ((d.footnotes.get? label).getD ⟨label, [], ∅⟩).attributes
  cases hlookup : d.footnotes.get? label with
  | none => exact hempty
  | some f => exact h _ (Dict.get?_eq_some_iff.1 hlookup)

end Forall

variable (d : DocTree) (ov : Overrides)

/-- The output of the document where it stands: its content and its endnotes. -/
def output (key : Option String) : Html :=
  Single.group ov (Single.request .doc d.node key ∅ {}
    (Render.present (d.content ov).1 ++ ((d.endnotes ov).render (d.content ov).2).1.toList))

/-- **The rendering of a document**, inside another one or not: the numbering around it has no
part in it and is left alone. -/
theorem node_run (s : Render.Setting) (key : Option String) (tight : Option Bool)
    (outer : Numbering) :
    Render.node s key tight d.node outer = (some (d.output s.overrides key), outer) := by
  rw [node, Render.node_doc_run]
  rfl

theorem render_node : d.node.render ov = some (d.output ov none) := by
  rw [Node.render, node_run]

/-- The rendering of a note: first the body of the footnote, then its item with the link back. -/
theorem note_run (label : String) (index : Nat) (σ : Numbering) :
    (d.endnotes ov).note label index σ =
      let body := Render.each (d.setting ov) none 0 (d.body label) σ
      (Single.footnote ov ((d.endnotes ov).footnote label) (some label)
        (Single.single "id" (Numbering.noteId index)) index label
        (Endnotes.appendBacklink (Render.present body.1)
          (Endnotes.backlink (body.2.backlinkTarget label index))), body.2) :=
  Render.note_endnotesOf_run d.footnotes.entries label index σ

/-- The note of a label records what the body of its footnote cites. -/
theorem cites_endnotes : (d.endnotes ov).Cites d.cites :=
  Render.cites_endnotesOf d.footnotes.entries

/-- The note of the label at a place in the order points back by the number of that place. -/
theorem backlinkTarget_note {σ : Numbering} (hσ : σ.order.Nodup) {label : String} {i : Nat}
    (h : σ.order[i]? = some label) :
    ((d.endnotes ov).note label (i + 1) σ).2.backlinkTarget label (i + 1) =
      Numbering.referenceId (i + 1) 1 := by
  refine Numbering.backlinkTarget_eq ((d.cites_endnotes ov).nodup_note hσ _ _) ?_
  obtain ⟨later, hlater⟩ := Numbering.order_prefix_foldl_record (d.cites label) σ
  rw [d.cites_endnotes ov, ← hlater,
    List.getElem?_append_left (List.getElem?_eq_some_iff.1 h).1, h]

/-- The order that the endnotes start from: what the document mentions. -/
theorem order_content : (d.content ov).2.order = d.mentions.eraseDups := by
  have hσ : (Numbering.ofLabels d.mentions).order.Nodup := by
    rw [Numbering.order_ofLabels]
    exact nodup_eraseDups _
  rw [content, Render.each_snd, Numbering.order_foldl_record _ hσ, Numbering.order_ofLabels,
    eraseDups_append_eraseDups]
  exact eraseDups_append_of_subset (Node.citedAll_subset_mentionsAll d.children)

/-- The references that are recorded before the endnotes start: those in the content. -/
theorem recorded_content : (d.content ov).2.recorded = Node.citedAll d.children := by
  rw [content, Render.each_snd, Numbering.recorded_foldl_record, Numbering.recorded_ofLabels,
    List.nil_append]

end DocTree

end DocMarkup
