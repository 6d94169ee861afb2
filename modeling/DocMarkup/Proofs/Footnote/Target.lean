import DocMarkup.Proofs.Footnote.Agreement
import DocMarkup.Proofs.Footnote.Identifier
import DocMarkup.Proofs.Footnote.Sequence

/-!
# Where links back lead

The link back of a note leads to the identifier of the first reference to its label. A reference
gets its identifier when it is recorded, so what decides whether the link leads anywhere is whether
the reference that is recorded first is shown. If it stands in a caption that its table does not
show, its identifier is nowhere in the output, although later references to the label may be.

## Main definitions

* `DocTree.recorded` : the references that a document records, with those in its notes.
* `DocTree.LinksLead` : where the links back of a document lead.

## Main results

* `Render.mem_identifiers_node_iff` : whether an output has the identifier of a first reference.
* `DocTree.links_lead` : the links back of a plain document.
-/

namespace DocMarkup

open Html

/-! ### Identifiers in an output -/

namespace Html

/-- The identifiers in trees side by side, in order. -/
def identifiers (hs : List Html) : List String := collect (property? "id") hs

theorem overlooks_id : Overlooks (property? "id") (· == "id") where
  text := fun _ => rfl
  fragment := fun _ _ => rfl
  element := fun _ _ _ _ _ h => h.text?_eq_none rfl

theorem mem_identifiers_iff {hs : List Html} {id : String} :
    id ∈ identifiers hs ↔ ∃ h ∈ subtreesAll hs, h.property? "id" = some id := List.mem_filterMap

end Html

theorem isForeign_id : IsForeign (· == "id") := by
  unfold IsForeign
  decide

theorem mem_anchorNames_of_id (name : String) (h : (name == "id") = true) :
    name ∈ anchorNames := by
  rw [eq_of_beq h]
  decide

/-- The identifier of the first reference to a label, whose number is that of an order. -/
def firstReferenceId (order : List String) (label : String) : String :=
  Numbering.referenceId (order.idxOf label + 1) 1

namespace Render

open Single

variable {links : Links} {key : Option String} {tight : Option Bool} {σ : Numbering}
  {order : List String} {label : String}

/-- A reference has the identifier that it was recorded with. -/
theorem property?_id_footnoteReference {n : Node} (hn : n.avoids (· == "id") = true) (l : String)
    (a : Anchor) : (footnoteReference ∅ n key l a).property? "id" = some a.id :=
  property?_footnoteReference key hn (by decide) rfl l a

/-- The references that a node is itself have the identifier of the first reference to a label
exactly if that is one of them. -/
theorem mem_ownIdentifiers_iff {n : Node} (hn : n.avoids (· == "id") = true)
    (hσ : (n.ownLabels.foldl Numbering.record σ).order <+: order) :
    firstReferenceId order label ∈ n.ownLabels.flatMap (fun l =>
        ((footnoteReference ∅ n key l (σ.anchor l)).property? "id").toList) ↔
      IsFirstShown label σ.recorded (n.ownLabels.map (·, true)) := by
  obtain hnil | ⟨l, hl⟩ := n.ownLabels_eq
  · rw [hnil]
    exact ⟨nofun, fun h => absurd h not_isFirstShown_nil⟩
  · rw [hl] at hσ ⊢
    have hmem : l ∈ order := hσ.subset (Numbering.mem_order_record σ l)
    have hnumber : order.idxOf l + 1 = order.idxOf label + 1 ↔ l = label := by
      rw [Nat.add_right_cancel_iff, List.idxOf_inj hmem]
    rw [List.flatMap_singleton, property?_id_footnoteReference hn, Option.toList_some,
      List.mem_singleton, firstReferenceId, Numbering.anchor, eq_comm,
      Numbering.referenceId_inj, Numbering.index_eq_of_prefix hσ, hnumber, Nat.add_eq_right,
      List.count_eq_zero]
    exact isFirstShown_singleton.symm

theorem recorded_node {s : Setting} (n : Node) :
    (node s key tight n σ).2.recorded = σ.recorded ++ n.references.map Prod.fst := by
  rw [node_snd, Numbering.recorded_foldl_record, Node.map_fst_references]

section Each

variable {ns : List Node}
  (H : ∀ n ∈ ns, ∀ key σ, (node ⟨∅, links⟩ key tight n σ).2.order <+: order →
    (firstReferenceId order label ∈ identifiers (node ⟨∅, links⟩ key tight n σ).1.toList ↔
      IsFirstShown label σ.recorded n.references))

include H

theorem mem_identifiers_each_iff_of (i : Nat) (σ : Numbering)
    (hσ : (each ⟨∅, links⟩ tight i ns σ).2.order <+: order) :
    firstReferenceId order label ∈ identifiers (present (each ⟨∅, links⟩ tight i ns σ).1) ↔
      IsFirstShown label σ.recorded (Node.referencesAll ns) := by
  induction ns generalizing i σ with
  | nil =>
    rw [each_nil]
    exact ⟨nofun, fun h => absurd h not_isFirstShown_nil⟩
  | cons n ns ih =>
    rw [each_cons] at hσ ⊢
    rw [present_cons, identifiers, collect_append, List.mem_append, Node.referencesAll,
      List.flatMap_cons, isFirstShown_append, ← recorded_node n]
    exact or_congr (H n List.mem_cons_self _ _ ((order_prefix_each _ _ _).trans hσ))
      (ih (fun m hm => H m (List.mem_cons_of_mem n hm)) _ _ hσ)

/-- A table shows the identifier of the first reference to a label if that is in no caption after
the first. -/
theorem mem_identifiers_shownChildren_iff (seen : Bool) (i : Nat) (σ : Numbering)
    (hσ : (each ⟨∅, links⟩ tight i ns σ).2.order <+: order) :
    firstReferenceId order label ∈
        (shownChildren seen (ns.zip (each ⟨∅, links⟩ tight i ns σ).1)).flatMap
          (fun o => identifiers o.toList) ↔
      IsFirstShown label σ.recorded (tableReferences seen (ns.zip (ns.map Node.references))) := by
  induction ns generalizing seen i σ with
  | nil =>
    rw [each_nil]
    exact ⟨nofun, fun h => absurd h not_isFirstShown_nil⟩
  | cons n ns ih =>
    rw [each_cons] at hσ ⊢
    have hrest (seen : Bool) := ih (fun m hm => H m (List.mem_cons_of_mem n hm)) seen _ _ hσ
    rw [List.map_cons, List.zip_cons_cons, List.zip_cons_cons, shownChildren, tableReferences]
    by_cases hhidden : (seen && n.isCaption) = true
    · obtain rfl : seen = true := (Bool.and_eq_true_iff.1 hhidden).1
      rw [if_pos hhidden, if_pos hhidden, isFirstShown_hidden_append, ← recorded_node n]
      exact hrest true
    · rw [if_neg hhidden, if_neg hhidden, List.flatMap_cons, List.mem_append, isFirstShown_append,
        ← recorded_node n]
      exact or_congr (H n List.mem_cons_self _ _ ((order_prefix_each _ _ _).trans hσ)) (hrest _)

end Each

/-- **Whether an output has the identifier of a first reference**: if the first reference to the
label is in the tree, and shown. -/
theorem mem_identifiers_node_iff (hl : links.Avoids (· == "id")) (n : Node)
    (hn : n.avoids (· == "id") = true) (hbelow : ∀ m ∈ n.descendants, m.avoids (· == "id") = true)
    (hσ : (node ⟨∅, links⟩ key tight n σ).2.order <+: order) :
    firstReferenceId order label ∈ identifiers (node ⟨∅, links⟩ key tight n σ).1.toList ↔
      IsFirstShown label σ.recorded n.references := by
  induction n using Node.induction_content generalizing key tight σ with
  | step n ih =>
    have hdoc := Node.isDoc_of_avoids hn
    rw [node_run hdoc] at hσ ⊢
    have hcontent : ∀ m ∈ n.content ∅ tight, ∀ key σ,
        (node ⟨∅, links⟩ key n.tightness m σ).2.order <+: order →
          (firstReferenceId order label ∈
              identifiers (node ⟨∅, links⟩ key n.tightness m σ).1.toList ↔
            IsFirstShown label σ.recorded m.references) := fun m hm key σ h => by
      obtain ⟨hmem, hsub⟩ := Node.mem_descendants_of_mem_content hm
      exact ih ∅ tight m hm (hbelow m hmem) (fun k hk => hbelow k (hsub hk)) h
    cases htable : n.isTable with
    | false =>
      have hown : (n.ownLabels.map (·, true)).map Prod.fst = n.ownLabels := by
        rw [List.map_map]
        exact List.map_id _
      rw [identifiers, collect_output overlooks_id isForeign_id hl hn htable each_eq_nil,
        List.mem_append, Node.references_eq hdoc htable ∅ tight, isFirstShown_append, hown,
        ← Numbering.recorded_foldl_record]
      exact or_congr (mem_ownIdentifiers_iff hn ((order_prefix_each _ _ _).trans hσ))
        (mem_identifiers_each_iff_of hcontent 0 _ hσ)
    | true =>
      obtain ⟨kids, attrs, auto, rfl⟩ := Node.eq_of_isTable htable
      have hkids := mem_identifiers_shownChildren_iff hcontent false 0 σ hσ
      rw [List.mem_flatMap] at hkids
      rw [identifiers, collect_output_table overlooks_id isForeign_id hn, Node.references_table,
        List.mem_flatMap]
      refine Iff.trans ?_ hkids
      exact exists_congr fun o => and_congr_left fun _ => mem_tableOrder_iff

theorem mem_identifiers_each_iff (hl : links.Avoids (· == "id")) {ns : List Node}
    (hns : ∀ n ∈ Node.forest ns, n.avoids (· == "id") = true) (i : Nat)
    (hσ : (each ⟨∅, links⟩ tight i ns σ).2.order <+: order) :
    firstReferenceId order label ∈ identifiers (present (each ⟨∅, links⟩ tight i ns σ).1) ↔
      IsFirstShown label σ.recorded (Node.referencesAll ns) :=
  mem_identifiers_each_iff_of (fun n hn _ _ h => mem_identifiers_node_iff hl n
    (hns n (Node.mem_forest_of_mem hn))
    (fun m hm => hns m (Node.descendants_subset_forest hn hm)) h) i σ hσ

end Render

/-! ### Links back in an output -/

namespace Html

/-- Where an element leads that has the role of a link back. -/
def backHref? (h : Html) : Option (Option String) :=
  if h.role? = some "doc-backlink" then some (h.property? "href") else none

theorem map_href_withRole (hs : List Html) :
    (withRole "doc-backlink" hs).map (property? "href") = collect backHref? hs := by
  rw [withRole, collect]
  induction subtreesAll hs with
  | nil => rfl
  | cons h hs ih => by_cases hrole : h.role? = some "doc-backlink" <;> simp [backHref?, hrole, ih]

theorem overlooks_backHref? : Overlooks backHref? (· == "role") where
  text := fun _ => rfl
  fragment := fun _ _ => rfl
  element := fun tag key props kids _ h => by
    have hrole : role? (.element tag key props kids) = none := h.text?_eq_none rfl
    rw [backHref?, hrole]
    rfl

end Html

theorem Mark.ofNumber_inj {m n : Nat} : Mark.ofNumber m = Mark.ofNumber n ↔ m = n := by
  refine ⟨fun h => Decimal.text_inj.1 (congrArg Mark.number h), congrArg Mark.ofNumber⟩

/-- A reference is no link back. -/
theorem Single.backHref?_footnoteReference {n : Node} (hn : n.avoids (· == "role") = true)
    (key : Option String) (l : String) (a : Anchor) :
    backHref? (footnoteReference ∅ n key l a) = none := by
  have hrole : (footnoteReference ∅ n key l a).role? = some "doc-noteref" :=
    property?_footnoteReference key hn (by decide) rfl l a
  rw [backHref?, hrole]
  rfl

namespace DocTree

variable {d : DocTree} {order : List String} {label : String}

/-- The references that a document records, in order, each with whether its output shows it: those
in its content, then those in the notes of the labels. -/
def recorded (d : DocTree) (labels : List String) : List (String × Bool) :=
  Node.referencesAll d.children ++ labels.flatMap fun l => Node.referencesAll (d.body l)

theorem mem_shown_iff_recorded {labels : List String} :
    label ∈ d.shown labels ↔ (label, true) ∈ d.recorded labels := by
  rw [shown, recorded, List.mem_append, List.mem_append, Node.mem_shownAll_iff, List.mem_flatMap,
    List.mem_flatMap]
  simp only [Node.mem_shownAll_iff]

/-- The one link back in a note. -/
theorem collect_backHref?_note (hd : d.Plain) (l : String) (index : Nat) (σ : Numbering) :
    collect backHref? [((d.endnotes ∅).note l index σ).1] =
      [some ("#" ++ ((d.endnotes ∅).note l index σ).2.backlinkTarget l index)] := by
  have havoids := hd.avoids Render.mem_anchorNames_of_role
  have hbody : collect backHref?
      (Render.present (Render.each (d.setting ∅) none 0 (d.body l) σ).1) = [] :=
    Render.collect_each_eq_nil overlooks_backHref? Render.isForeign_role
      (fun _ key l a hn => Single.backHref?_footnoteReference hn key l a) havoids.links
      (havoids.body l) 0 none σ
  have hid : (Single.single "id" (Numbering.noteId index)).Lacks (· == "role") :=
    Props.lacks_empty.insert (by decide) _
  rw [note_run]
  refine (Single.collect_footnote overlooks_backHref? Render.isForeign_role _
    (havoids.footnote l) hid _ _ _).trans ?_
  rw [Endnotes.collect_appendBacklink overlooks_backHref? fun _ _ _ _ _ => rfl, hbody]
  rfl

/-- A note has the identifier of the first reference to a label if that is in the body of its
footnote, and shown. -/
theorem mem_identifiers_note_iff (hd : d.Plain) {l : String} {index : Nat} {σ : Numbering}
    (hσ : ((d.endnotes ∅).note l index σ).2.order <+: order) :
    firstReferenceId order label ∈ identifiers [((d.endnotes ∅).note l index σ).1] ↔
      IsFirstShown label σ.recorded (Node.referencesAll (d.body l)) := by
  have havoids := hd.avoids mem_anchorNames_of_id
  have hbody : (Render.each (d.setting ∅) none 0 (d.body l) σ).2.order <+: order := by
    rwa [note_run] at hσ
  have hid : (((d.endnotes ∅).note l index σ).1.property? "id").toList =
      [Numbering.noteId index] := by
    rw [(note_item hd l index σ).2.2, Option.toList_some]
  have hne : firstReferenceId order label ≠ Numbering.noteId index :=
    (Numbering.noteId_ne_referenceId index _ 1).symm
  rw [note_eq] at hid ⊢
  rw [identifiers, collect_element, hid, List.singleton_append, List.mem_cons, or_iff_right hne,
    Endnotes.collect_appendBacklink overlooks_id fun _ _ _ _ _ => rfl, List.mem_append,
    or_iff_left (by exact List.not_mem_nil)]
  exact Render.mem_identifiers_each_iff havoids.links (havoids.body l) 0 hbody

/-- The identifiers in the output of a document are those in its content and in its notes. -/
theorem identifiers_fragment (content items : List Html) :
    identifiers
        [.fragment none (content ++ if items = [] then [] else [Endnotes.sectionOf items])] =
      identifiers (content ++ items) := by
  rw [identifiers, overlooks_id.collect_fragment, collect_append, identifiers, collect_append]
  congr 1
  split
  · rename_i h
    rw [h]
  · exact Endnotes.collect_sectionOf overlooks_id (by decide) items

section Runs

open Endnotes

variable {reached others labels : List String} {items : List Html} {next : Nat} {σ τ : Numbering}

/-- The references that the notes of some labels record. -/
theorem map_fst_flatMap_referencesAll (labels : List String) :
    (labels.flatMap fun l => Node.referencesAll (d.body l)).map Prod.fst =
      labels.flatMap d.cites := by
  rw [List.map_flatMap]
  exact List.flatMap_congr fun l _ => Node.map_fst_referencesAll (d.body l)

theorem mem_identifiers_items_iff (hd : d.Plain) (h : Drains (d.endnotes ∅) next σ labels items τ)
    (hτ : τ.order <+: order) :
    firstReferenceId order label ∈ identifiers items ↔ IsFirstShown label σ.recorded
      (labels.flatMap fun l => Node.referencesAll (d.body l)) := by
  induction h with
  | done => exact ⟨nofun, fun h => absurd h not_isFirstShown_nil⟩
  | @step next σ l labels items τ _ rest ih =>
    have hnote := (rest.order_prefix (d.cites_endnotes ∅)).trans hτ
    have hrecorded : ((d.endnotes ∅).note l (next + 1) σ).2.recorded =
        σ.recorded ++ (Node.referencesAll (d.body l)).map Prod.fst := by
      rw [d.cites_endnotes ∅, Numbering.recorded_foldl_record, Node.map_fst_referencesAll]
      rfl
    rw [identifiers, collect_cons, List.mem_append, List.flatMap_cons, isFirstShown_append,
      ← hrecorded]
    exact or_congr (mem_identifiers_note_iff hd hnote) (ih hτ)

/-- A document has the identifier of the first reference to a label in its output if that reference
is shown. -/
theorem mem_identifiers_iff_of_runs (hd : d.Plain)
    (h : (d.endnotes ∅).Runs (d.content ∅).2 reached others items τ) :
    firstReferenceId τ.order label ∈ identifiers (Render.present (d.content ∅).1 ++ items) ↔
      (d.recorded (reached ++ others)).lookup label = some true := by
  have havoids := hd.avoids mem_anchorNames_of_id
  have hcontent : firstReferenceId τ.order label ∈ identifiers (Render.present (d.content ∅).1) ↔
      IsFirstShown label (Numbering.ofLabels d.mentions).recorded (Node.referencesAll d.children) :=
    Render.mem_identifiers_each_iff havoids.links havoids.children 0
      (h.order_prefix (d.cites_endnotes ∅))
  obtain ⟨first, second⟩ := h
  rename_i items items' σ'
  have hfirst : firstReferenceId τ.order label ∈ identifiers items ↔ _ :=
    mem_identifiers_items_iff hd first
      ((Numbering.order_prefix_foldl_assign _ _).trans (second.order_prefix (d.cites_endnotes ∅)))
  have hsecond : firstReferenceId τ.order label ∈ identifiers items' ↔ _ :=
    mem_identifiers_items_iff hd second List.prefix_rfl
  rw [Numbering.recorded_ofLabels] at hcontent
  rw [d.recorded_content ∅, ← Node.map_fst_referencesAll] at hfirst
  rw [Numbering.recorded_foldl_assign, first.recorded_eq (d.cites_endnotes ∅),
    d.recorded_content ∅, ← Node.map_fst_referencesAll, ← map_fst_flatMap_referencesAll] at hsecond
  have hall : IsFirstShown label [] (d.recorded (reached ++ others)) ↔
      (d.recorded (reached ++ others)).lookup label = some true := and_iff_right List.not_mem_nil
  rw [← hall, recorded, List.flatMap_append, isFirstShown_append, isFirstShown_append,
    List.nil_append, identifiers, collect_append, collect_append, List.mem_append, List.mem_append]
  exact or_congr hcontent (or_congr hfirst hsecond)

/-- The references to a label that are shown are those that lead to its item and show its
number. -/
theorem mem_marks_iff (hd : d.Plain)
    (h : (d.endnotes ∅).Runs (d.content ∅).2 reached others items τ)
    (hitems : ((d.endnotes ∅).notes (d.content ∅).2).1 = items) {i : Nat}
    (hi : τ.order[i]? = some label) :
    some (Mark.ofNumber (i + 1)) ∈ (withRole "doc-noteref" [d.output ∅ none]).map mark? ↔
      (label, true) ∈ d.recorded (reached ++ others) := by
  have horder := order_of_runs h
  have hnodup := nodup_of_runs h
  obtain ⟨hlt, hget⟩ := List.getElem?_eq_some_iff.1 hi
  have hplace (l : String) (hl : l ∈ τ.order) : τ.order.idxOf l = i ↔ l = label := by
    rw [← hget, ← List.idxOf_inj hl, hnodup.idxOf_getElem i hlt]
  have hmark : ∀ l ∈ d.shown (reached ++ others),
      (Landmark.reference τ.order l).mark? = some (Mark.ofNumber (i + 1)) ↔ l = label := by
    intro l hl
    rw [← hplace l (horder ▸ shown_subset h hl), ← Nat.add_right_cancel_iff (n := 1)]
    exact (Option.some_inj ..).trans Mark.ofNumber_inj
  rw [map_mark?_withRole, references_output hd h hitems, List.map_map, List.mem_map,
    ← mem_shown_iff_recorded]
  constructor
  · rintro ⟨l, hl, hl'⟩
    rwa [← (hmark l hl).1 hl']
  · exact fun hl => ⟨label, hl, (hmark label hl).2 rfl⟩

end Runs

/-- Where the links back of a document lead, where `τ` is the numbering that its notes leave. -/
structure LinksLead (d : DocTree) (out : Html) (items : List Html) (τ : Numbering) : Prop where
  length_eq : items.length = τ.order.length
  /-- The item of a label has one link back, to the identifier of a first reference. Where a
  reference to the label is recorded that is shown, a reference in the output leads to the item;
  but the identifier is in the output only if the reference that is recorded first is shown. -/
  item : ∀ i item, items[i]? = some item → ∃ label, τ.order[i]? = some label ∧
    (withRole "doc-backlink" [item]).map (property? "href") =
        [some ("#" ++ τ.backlinkTarget label (i + 1))] ∧
      (some (Mark.ofNumber (i + 1)) ∈ (withRole "doc-noteref" [out]).map mark? ↔
        (label, true) ∈ d.recorded τ.order) ∧
      ((∃ h ∈ subtreesAll [out], h.property? "id" = some (τ.backlinkTarget label (i + 1))) ↔
        (d.recorded τ.order).lookup label = some true)

/-- **Links back lead to first references** that are shown, in every plain document. -/
theorem links_lead (d : DocTree) (hd : d.Plain) :
    ∃ content items τ,
      let out := Html.fragment none
        (content ++ if items = [] then [] else [Endnotes.sectionOf items])
      d.node.render ∅ = some out ∧ (d.endnotes ∅).notes (d.content ∅).2 = (items, τ) ∧
        d.LinksLead out items τ := by
  obtain ⟨reached, others, items, τ, hruns, hnotes, hrender⟩ := d.exists_render
  have horder := order_of_runs hruns
  have hout : d.output ∅ none = .fragment none (Render.present (d.content ∅).1 ++
      if items = [] then [] else [Endnotes.sectionOf items]) := by
    rw [d.render_node ∅] at hrender
    exact Option.some.inj hrender
  refine ⟨_, items, τ, hrender, hnotes, by rw [horder, hruns.length_items], fun i item hi => ?_⟩
  obtain ⟨label, hlabel, hback⟩ := exists_label_of_runs (P := fun label index item =>
    collect backHref? [item] = [some ("#" ++ Numbering.referenceId index 1)]) hruns
      (fun σ label i hσ hlabel => by
        rw [collect_backHref?_note hd, d.backlinkTarget_note ∅ hσ hlabel]) hi
  rw [← horder] at hlabel
  have htarget := Numbering.backlinkTarget_eq (nodup_of_runs hruns) hlabel
  refine ⟨label, hlabel, ?_, ?_, ?_⟩
  · rw [map_href_withRole, hback, htarget]
  · rw [← hout, horder, mem_marks_iff hd hruns (congrArg Prod.fst hnotes) hlabel]
  · have hfirst : τ.backlinkTarget label (i + 1) = firstReferenceId τ.order label := by
      obtain ⟨hlt, rfl⟩ := List.getElem?_eq_some_iff.1 hlabel
      rw [htarget, firstReferenceId, (nodup_of_runs hruns).idxOf_getElem i hlt]
    rw [hfirst, ← mem_identifiers_iff, identifiers_fragment, mem_identifiers_iff_of_runs hd hruns,
      horder]

/-- A document whose table hides the first of two references to a footnote. -/
def hidden : DocTree where
  children :=
    [.container .table
      [.container .caption [.literal .str "kept" ∅] ∅ ∅,
      .container .caption [.footnoteReference "a" ∅] ∅ ∅] ∅ ∅,
    .container .para [.footnoteReference "a" ∅] ∅ ∅]
  attributes := ∅
  references := ∅
  autoReferences := ∅
  footnotes := .ofList [("a", ⟨"a", [.container .para [] ∅ ∅], ∅⟩)]

theorem links_lead_hidden :
    hidden.Plain ∧ ∃ content items τ,
      let out := Html.fragment none
        (content ++ if items = [] then [] else [Endnotes.sectionOf items])
      hidden.node.render ∅ = some out ∧
        (hidden.endnotes ∅).notes (hidden.content ∅).2 = (items, τ) ∧
          hidden.LinksLead out items τ := by
  have hplain : hidden.Plain := ⟨by decide, by decide, by decide, by decide⟩
  exact ⟨hplain, links_lead hidden hplain⟩

/-- The link back of its note leads nowhere, although its output has a reference to the note. -/
theorem link_dangles :
    let out := (hidden.node.render ∅).toList
    (withRole "doc-noteref" out).map (fun h => (h.property? "href", h.property? "id")) =
        [(some "#fn1", some "fnref1-2")] ∧
      (withRole "doc-backlink" out).map (property? "href") = [some "#fnref1"] ∧
      ¬ ∃ h ∈ subtreesAll out, h.property? "id" = some "fnref1" := by
  decide +kernel

end DocTree

end DocMarkup
