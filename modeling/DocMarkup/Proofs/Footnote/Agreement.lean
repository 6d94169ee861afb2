import DocMarkup.Proofs.Footnote.EndnoteOrder
import DocMarkup.Proofs.Footnote.Shown
import DocMarkup.Proofs.Render.EndnoteSection

/-!
# References and endnotes agree

The items of the endnotes stand in the order of the footnotes' numbers, and the references in the
output, those inside the endnotes included, show these numbers and link to these items. A
reference may be written before its item exists: its number is that of the label in the order at
that time, and labels do not lose their numbers.

## Main definitions

* `DocTree.Plain` : a document in which nothing can be taken for a reference or a note.
* `DocTree.Avoids` : a document in which no attribute has a name in a set.
* `DocTree.shown` : the labels of the references in its output.

## Main results

* `DocTree.landmarks_items` : the references in the items of the endnotes.
* `DocTree.references_agree` : the agreement of references and endnotes.
-/

namespace DocMarkup

open Html

namespace DocTree

/-- A document in which nothing but its references and its endnotes looks like them: it has no
document and no raw HTML inside, and no attribute in it is an identifier, a link or a role. -/
structure Plain (d : DocTree) : Prop where
  children : ∀ n ∈ Node.forest d.children, n.isPlain = true
  footnotes : ∀ e ∈ d.footnotes.entries, e.2.attributes.isPlain = true ∧
    ∀ n ∈ Node.forest e.2.children, n.isPlain = true
  references : ∀ e ∈ d.references.entries, e.2.attributes.isPlain = true
  autoReferences : ∀ e ∈ d.autoReferences.entries, e.2.attributes.isPlain = true

/-- A document that has no document and no raw HTML inside and no attribute with a name in the set,
not counting its own attributes, which are not written. -/
structure Avoids (S : String → Bool) (d : DocTree) : Prop where
  children : ∀ n ∈ Node.forest d.children, n.avoids S = true
  footnotes : ∀ e ∈ d.footnotes.entries, e.2.attributes.avoids S = true ∧
    ∀ n ∈ Node.forest e.2.children, n.avoids S = true
  references : ∀ e ∈ d.references.entries, e.2.attributes.avoids S = true
  autoReferences : ∀ e ∈ d.autoReferences.entries, e.2.attributes.avoids S = true

/-- The labels of the references in the output of the document: those in its content, then those
in the notes of the labels. -/
def shown (d : DocTree) (labels : List String) : List String :=
  Node.shownAll d.children ++ labels.flatMap fun label => Node.shownAll (d.body label)

variable {d : DocTree}

/-! ### Plain documents -/

theorem Plain.links (hd : d.Plain) : (d.setting ∅).links.IsPlain :=
  forall_links (P := fun attrs => attrs.isPlain = true) hd.references hd.autoReferences ∅

theorem Plain.body (hd : d.Plain) (label : String) :
    ∀ n ∈ Node.forest (d.body label), n.isPlain = true :=
  forall_body (fun e he => (hd.footnotes e he).2) label

/-- The footnote that a note is made from is plain. -/
theorem Plain.footnote (hd : d.Plain) (label : String) :
    (Node.footnote ((d.endnotes ∅).footnote label)).isPlain = true := by
  have hattrs : ((d.endnotes ∅).footnote label).attributes.isPlain = true :=
    forall_footnote (P := fun attrs => attrs.isPlain = true) rfl
      (fun e he => (hd.footnotes e he).1) ∅ label
  simp only [Node.isPlain, Bool.and_eq_true]
  exact ⟨⟨⟨rfl, rfl⟩, hattrs⟩, rfl⟩

section Avoids

variable {S : String → Bool}

theorem Avoids.links (hd : d.Avoids S) : (d.setting ∅).links.Avoids S :=
  forall_links (P := fun attrs => attrs.avoids S = true) hd.references hd.autoReferences ∅

theorem Avoids.body (hd : d.Avoids S) (label : String) :
    ∀ n ∈ Node.forest (d.body label), n.avoids S = true :=
  forall_body (fun e he => (hd.footnotes e he).2) label

theorem Avoids.footnote (hd : d.Avoids S) (label : String) :
    (Node.footnote ((d.endnotes ∅).footnote label)).avoids S = true := by
  have hattrs : ((d.endnotes ∅).footnote label).attributes.avoids S = true :=
    forall_footnote (P := fun attrs => attrs.avoids S = true) rfl
      (fun e he => (hd.footnotes e he).1) ∅ label
  simp only [Node.avoids, Bool.and_eq_true]
  exact ⟨⟨⟨rfl, rfl⟩, hattrs⟩, rfl⟩

theorem Plain.avoids (hd : d.Plain) (hS : ∀ name, S name = true → name ∈ anchorNames) :
    d.Avoids S where
  children := fun n hn => Node.avoids_of_isPlain (hd.children n hn) hS
  footnotes := fun e he => ⟨Attributes.avoids_of_isPlain (hd.footnotes e he).1 hS,
    fun n hn => Node.avoids_of_isPlain ((hd.footnotes e he).2 n hn) hS⟩
  references := fun e he => Attributes.avoids_of_isPlain (hd.references e he) hS
  autoReferences := fun e he => Attributes.avoids_of_isPlain (hd.autoReferences e he) hS

end Avoids

/-! ### The items of the endnotes -/

/-- The item of a note, whose content has a link back at its end. -/
theorem note_eq (label : String) (index : Nat) (σ : Numbering) :
    ((d.endnotes ∅).note label index σ).1 = .element "li" (some label)
      ((Node.footnote ((d.endnotes ∅).footnote label)).props
        (Single.single "id" (Numbering.noteId index)))
      (Endnotes.appendBacklink
        (Render.present (Render.each (d.setting ∅) none 0 (d.body label) σ).1)
        (Endnotes.backlink
          (((d.endnotes ∅).note label index σ).2.backlinkTarget label index))) := by
  rw [note_run]
  dsimp only
  rw [Single.footnote, Single.element, Overrides.build, Overrides.pick_empty]
  rfl

/-- The item of a note by what it is found by. -/
theorem note_item (hd : d.Plain) (label : String) (index : Nat) (σ : Numbering) :
    let item := ((d.endnotes ∅).note label index σ).1
    item.tag? = some "li" ∧ item.key? = some label ∧
      item.property? "id" = some (Numbering.noteId index) := by
  rw [note_eq]
  exact ⟨rfl, rfl, Node.text?_props_of_isPlain (hd.footnote label) (by decide) _⟩

/-- The landmarks of a note: the references in the body of its footnote, then the link back. -/
theorem landmarks_note (hd : d.Plain) {label : String} {index : Nat} {σ : Numbering}
    {order : List String} (hσ : ((d.endnotes ∅).note label index σ).2.order <+: order) :
    landmarks [((d.endnotes ∅).note label index σ).1] =
      (Node.shownAll (d.body label)).map (.reference order) ++ [Endnotes.backLandmark] := by
  rw [note_run] at hσ ⊢
  have hbody : landmarks (Render.present
      (Render.each (d.setting ∅) none 0 (d.body label) σ).1) =
        (Node.shownAll (d.body label)).map (.reference order) :=
    Render.landmarks_each hd.links (hd.body label) 0 hσ
  have hmarks : ∀ l ∈ landmarks (Render.present
      (Render.each (d.setting ∅) none 0 (d.body label) σ).1), l.mark?.isSome = true := by
    intro l hl
    rw [hbody] at hl
    obtain ⟨label, -, rfl⟩ := List.mem_map.1 hl
    rfl
  dsimp only
  have hid : (Single.single "id" (Numbering.noteId index)).Lacks (· == "role") :=
    Props.lacks_empty.insert (by decide) _
  exact (Single.collect_footnote overlooks_landmark? Render.isForeign_role _
    (Node.avoids_of_isPlain (hd.footnote label) Render.mem_anchorNames_of_role) hid _ _ _).trans
      ((Endnotes.landmarks_appendBacklink hmarks _).trans (by rw [hbody]))

section Drains

open Endnotes

variable {next : Nat} {σ τ : Numbering} {labels order : List String} {items : List Html}

theorem keys_items (hd : d.Plain) (h : Drains (d.endnotes ∅) next σ labels items τ) :
    items.map key? = labels.map some := by
  induction h with
  | done => rfl
  | step _ _ ih => rw [List.map_cons, List.map_cons, ih, (note_item hd _ _ _).2.1]

/-- The landmarks of the notes of a run, with numbers in every order that comes after. -/
theorem landmarks_items (hd : d.Plain) (h : Drains (d.endnotes ∅) next σ labels items τ)
    (hτ : τ.order <+: order) :
    landmarks items = labels.flatMap fun label =>
      (Node.shownAll (d.body label)).map (.reference order) ++ [backLandmark] := by
  induction h with
  | done => rfl
  | step _ rest ih =>
    have hnote := (rest.order_prefix (d.cites_endnotes ∅)).trans hτ
    rw [landmarks_cons, landmarks_note hd hnote, ih hτ, List.flatMap_cons]

end Drains

section Runs

open Endnotes

variable {σ τ : Numbering} {reached others : List String} {items : List Html}

theorem keys_of_runs (hd : d.Plain) (h : (d.endnotes ∅).Runs σ reached others items τ) :
    items.map key? = (reached ++ others).map some := by
  obtain ⟨first, second⟩ := h
  rw [List.map_append, List.map_append, keys_items hd first, keys_items hd second]

theorem item_of_runs (hd : d.Plain) (h : (d.endnotes ∅).Runs (d.content ∅).2 reached others items τ)
    {i : Nat} {item : Html} (hi : items[i]? = some item) :
    item.tag? = some "li" ∧ item.property? "id" = some (Numbering.noteId (i + 1)) := by
  obtain ⟨label, -, htag, hid⟩ := exists_label_of_runs (P := fun _ index item =>
    item.tag? = some "li" ∧ item.property? "id" = some (Numbering.noteId index)) h
      (fun σ label i _ _ => ⟨(note_item hd label _ σ).1, (note_item hd label _ σ).2.2⟩) hi
  exact ⟨htag, hid⟩

theorem landmarks_of_runs (hd : d.Plain)
    (h : (d.endnotes ∅).Runs (d.content ∅).2 reached others items τ) :
    landmarks items = (reached ++ others).flatMap fun label =>
      (Node.shownAll (d.body label)).map (.reference τ.order) ++ [backLandmark] := by
  obtain ⟨first, second⟩ := h
  have hfirst := (Numbering.order_prefix_foldl_assign _ _).trans
    (second.order_prefix (d.cites_endnotes ∅))
  rw [landmarks_append, landmarks_items hd first hfirst,
    landmarks_items hd second List.prefix_rfl, List.flatMap_append]

theorem landmarks_content (hd : d.Plain)
    (h : (d.endnotes ∅).Runs (d.content ∅).2 reached others items τ) :
    landmarks (Render.present (d.content ∅).1) =
      (Node.shownAll d.children).map (.reference τ.order) :=
  Render.landmarks_each hd.links hd.children 0 (h.order_prefix (d.cites_endnotes ∅))

end Runs

/-! ### The output -/

theorem filter_references (role : String) (order labels : List String) :
    (labels.map (Landmark.reference order)).filter (·.role = role) =
      if role = "doc-noteref" then labels.map (.reference order) else [] := by
  split
  · rename_i hrole
    subst hrole
    refine List.filter_eq_self.2 fun l hl => ?_
    obtain ⟨label, -, rfl⟩ := List.mem_map.1 hl
    rfl
  · rename_i hrole
    refine List.filter_eq_nil_iff.2 fun l hl => ?_
    obtain ⟨label, -, rfl⟩ := List.mem_map.1 hl
    exact fun h => hrole (of_decide_eq_true h).symm

/-- Apart from the links back, the elements with a role in the items are references. -/
theorem filter_landmarks_items {role : String} (hrole : role ≠ "doc-backlink")
    (order labels : List String) :
    (labels.flatMap fun label => (Node.shownAll (d.body label)).map (Landmark.reference order) ++
        [Endnotes.backLandmark]).filter (·.role = role) =
      if role = "doc-noteref" then (labels.flatMap fun label =>
        Node.shownAll (d.body label)).map (.reference order) else [] := by
  have hback : [Endnotes.backLandmark].filter (·.role = role) = [] :=
    List.filter_eq_nil_iff.2 fun l hl h => hrole (by
      rw [List.mem_singleton.1 hl] at h
      exact (of_decide_eq_true h).symm)
  simp only [List.filter_flatMap, List.filter_append, filter_references, hback, List.append_nil]
  split
  · rw [List.map_flatMap]
  · rw [List.flatMap_eq_nil_iff]
    exact fun _ _ => rfl

theorem output_eq (d : DocTree) (key : Option String) :
    d.output ∅ key = .fragment key (Render.present (d.content ∅).1 ++
      ((d.endnotes ∅).render (d.content ∅).2).1.toList) := by
  rw [output, Single.group, Overrides.build, Overrides.pick_empty]
  rfl

/-- **The output of a document**: its content, then the section with the notes of both runs of the
loop, if there is a note. -/
theorem exists_render (d : DocTree) :
    ∃ reached others items τ, (d.endnotes ∅).Runs (d.content ∅).2 reached others items τ ∧
      (d.endnotes ∅).notes (d.content ∅).2 = (items, τ) ∧
      d.node.render ∅ = some (.fragment none (Render.present (d.content ∅).1 ++
        if items = [] then [] else [Endnotes.sectionOf items])) := by
  obtain ⟨reached, others, hruns⟩ := d.exists_endnote_runs ∅
  refine ⟨reached, others, _, _, hruns, rfl, ?_⟩
  rw [d.render_node ∅, output_eq, Endnotes.render_fst rfl]
  by_cases h : ((d.endnotes ∅).notes (d.content ∅).2).1 = []
  · rw [if_pos h, if_pos h]
    rfl
  · rw [if_neg h, if_neg h]
    rfl

section Output

variable {reached others : List String} {items : List Html} {τ : Numbering}

/-- The references in the output of a document. -/
theorem references_output (hd : d.Plain)
    (h : (d.endnotes ∅).Runs (d.content ∅).2 reached others items τ)
    (hitems : ((d.endnotes ∅).notes (d.content ∅).2).1 = items) :
    (landmarks [d.output ∅ none]).filter (·.role = "doc-noteref") =
      (d.shown (reached ++ others)).map (.reference τ.order) := by
  have hsection : (landmarks ((d.endnotes ∅).render (d.content ∅).2).1.toList).filter
      (·.role = "doc-noteref") = (landmarks items).filter (·.role = "doc-noteref") := by
    rw [Endnotes.render_fst rfl, hitems]
    split
    · rename_i hnil
      rw [hnil]
      rfl
    · rw [Option.toList_some, Endnotes.landmarks_sectionOf]
      rfl
  rw [output_eq, landmarks_fragment, landmarks_append, List.filter_append, hsection,
    landmarks_content hd h, landmarks_of_runs hd h, filter_references, if_pos rfl,
    filter_landmarks_items (by decide), if_pos rfl, ← List.map_append, shown]

/-- The endnotes sections in the output of a document. -/
theorem sections_output (hd : d.Plain)
    (h : (d.endnotes ∅).Runs (d.content ∅).2 reached others items τ)
    (hitems : ((d.endnotes ∅).notes (d.content ∅).2).1 = items) :
    withRole "doc-endnotes" [d.output ∅ none] =
      if items = [] then [] else [Endnotes.sectionOf items] := by
  have hcontent : withRole "doc-endnotes" (Render.present (d.content ∅).1) = [] := by
    rw [withRole_eq_nil_iff, landmarks_content hd h, filter_references]
    rfl
  have hinside : withRole "doc-endnotes" items = [] := by
    rw [withRole_eq_nil_iff, landmarks_of_runs hd h, filter_landmarks_items (by decide)]
    rfl
  rw [output_eq, withRole_fragment, withRole_append, hcontent, List.nil_append,
    Endnotes.render_fst rfl, hitems]
  split
  · rfl
  · rw [Option.toList_some, Endnotes.withRole_sectionOf, hinside]

/-- There are no notes exactly if nothing is mentioned and nothing is defined. -/
theorem items_eq_nil_iff (hd : d.Plain)
    (h : (d.endnotes ∅).Runs (d.content ∅).2 reached others items τ) :
    items = [] ↔ d.footnotes.keys = [] ∧ d.mentions = [] := by
  have hmem := (complete_of_runs h).mem_iff
  have hlabels : items = [] ↔ reached ++ others = [] := by
    rw [← List.map_eq_nil_iff (f := key?), keys_of_runs hd h, List.map_eq_nil_iff]
  rw [hlabels]
  constructor
  · intro hnil
    rw [hnil] at hmem
    exact ⟨List.eq_nil_iff_forall_not_mem.2 fun label hl =>
        List.not_mem_nil ((hmem label).2 (Or.inr (Or.inl hl))),
      List.eq_nil_iff_forall_not_mem.2 fun label hl =>
        List.not_mem_nil ((hmem label).2 (Or.inl hl))⟩
  · rintro ⟨hkeys, hmentions⟩
    have hentries : d.footnotes.entries = [] := List.map_eq_nil_iff.1 hkeys
    refine List.eq_nil_iff_forall_not_mem.2 fun label hl => ?_
    rcases (hmem label).1 hl with hl | hl | ⟨e, he, -⟩
    · exact List.not_mem_nil (hmentions ▸ hl)
    · exact List.not_mem_nil (hkeys ▸ hl)
    · exact List.not_mem_nil (hentries ▸ he)

/-- The labels of all references in the output have notes. -/
theorem shown_subset (h : (d.endnotes ∅).Runs (d.content ∅).2 reached others items τ) :
    d.shown (reached ++ others) ⊆ reached ++ others := by
  intro label hl
  rw [(complete_of_runs h).mem_iff, ← mem_cites_iff]
  rcases List.mem_append.1 hl with hl | hl
  · exact Or.inl (Node.citedAll_subset_mentionsAll _ (Node.shownAll_subset_citedAll _ hl))
  · obtain ⟨l, -, hl⟩ := List.mem_flatMap.1 hl
    exact Or.inr (Or.inr ⟨l, Node.shownAll_subset_citedAll _ hl⟩)

end Output

/-! ### The agreement -/

/-- The agreement of the references in an output with its endnotes, whose items are those of the
labels. -/
structure Agreement (d : DocTree) (out : Html) (labels : List String) (items : List Html) :
    Prop where
  /-- There is one endnotes section if there is an item, and none otherwise. -/
  sections : withRole "doc-endnotes" [out] =
    if items = [] then [] else [Endnotes.sectionOf items]
  items_eq_nil_iff : items = [] ↔ d.footnotes.keys = [] ∧ d.mentions = []
  nodup : labels.Nodup
  keys : items.map key? = labels.map some
  /-- The items are list items with the numbers from 1 on as identifiers. -/
  item : ∀ i item, items[i]? = some item →
    item.tag? = some "li" ∧ item.property? "id" = some ("fn" ++ Decimal.text (i + 1))
  /-- Each reference shows the number of its label's item and leads there. -/
  marks : (withRole "doc-noteref" [out]).map mark? =
    (d.shown labels).map fun label => some (.ofNumber (labels.idxOf label + 1))
  shown_subset : d.shown labels ⊆ labels

/-- **References and endnotes agree** in the output of every plain document. -/
theorem references_agree (d : DocTree) (hd : d.Plain) :
    ∃ out labels items, d.node.render ∅ = some out ∧ d.Agreement out labels items := by
  obtain ⟨reached, others, hruns⟩ := d.exists_endnote_runs ∅
  have hcomplete := complete_of_runs hruns
  have hagree : d.Agreement (d.output ∅ none) (reached ++ others)
      ((d.endnotes ∅).notes (d.content ∅).2).1 := {
    sections := sections_output hd hruns rfl
    items_eq_nil_iff := items_eq_nil_iff hd hruns
    nodup := hcomplete.nodup
    keys := keys_of_runs hd hruns
    item := fun i item => item_of_runs hd hruns
    marks := by
      rw [map_mark?_withRole, references_output hd hruns rfl, List.map_map, hcomplete.order_eq]
      rfl
    shown_subset := shown_subset hruns }
  exact ⟨_, _, _, d.render_node ∅, hagree⟩

/-- A document whose footnotes refer to themselves, to each other and to one that is not defined,
with references in a table, in its second caption, and in the content of an image. -/
def crossing : DocTree where
  children :=
    [.container .para [.footnoteReference "b" ∅,
      .link .image none none [.footnoteReference "picture" ∅] ∅] ∅ ∅,
    .container .table
      [.row false [.cell false .left [.footnoteReference "missing" ∅] ∅] ∅,
      .container .caption [.footnoteReference "b" ∅] ∅ ∅,
      .container .caption [.footnoteReference "hidden" ∅] ∅ ∅] ∅ ∅]
  attributes := ∅
  references := ∅
  autoReferences := ∅
  footnotes := .ofList
    [("z", ⟨"z", [.footnoteReference "late" ∅], ∅⟩),
    ("b", ⟨"b", [.container .para [.footnoteReference "b" ∅, .footnoteReference "c" ∅] ∅ ∅], ∅⟩),
    ("c", ⟨"c", [.footnoteReference "b" ∅], ∅⟩)]

theorem references_agree_crossing :
    crossing.Plain ∧ ∃ out labels items,
      crossing.node.render ∅ = some out ∧ crossing.Agreement out labels items := by
  have hplain : crossing.Plain := ⟨by decide, by decide, by decide, by decide⟩
  exact ⟨hplain, references_agree crossing hplain⟩

end DocTree

end DocMarkup
