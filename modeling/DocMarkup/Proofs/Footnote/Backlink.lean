import DocMarkup.Proofs.Footnote.Agreement
import DocMarkup.Proofs.Render.VoidOutput
import DocMarkup.Proofs.Render.WrittenRoles

/-!
# Links back in the markup of the endnotes

Every note of a document is given a link back at the end of its content, inside the last tree there
if that is an element or a group. Elements that never have content are written without what is
inside them, so the markup of a note has its link back exactly if the body of the footnote does not
end in an image, a thematic break or a hard break. The link leads to the first reference of the
note, by its number, and is the only one of its role.

## Main results

* `Endnotes.filter_isBacklink_appendBacklink` : the links back that are written for content with a
  link back at its end.
* `DocTree.backlinks_note` : the links back in the markup of a note.
* `DocTree.backlinks_written` : the links back in the markup of the endnotes.
-/

namespace DocMarkup

open Html RawHtml

namespace Endnotes

/-- The element that is read for a link back. -/
theorem writtenElements_backlink (target : String) :
    writtenElementsAll [backlink target] =
      [("a", [("href", "#" ++ target), ("role", "doc-backlink")])] := by
  have hhref : attribute? ("href", .text ("#" ++ target)) = some ("href", "#" ++ target) :=
    if_pos (show isAttributeName (attributeName "href") = true by decide)
  have hrole : attribute? ("role", .text "doc-backlink") = some ("role", "doc-backlink") := by
    decide
  have hread : readProperties ((Single.single "href" ("#" ++ target)).insert "role"
      (.text "doc-backlink")) = [("href", "#" ++ target), ("role", "doc-backlink")] := by
    rw [← map_readBack_attributes, Html.attributes]
    change ([("href", .text ("#" ++ target)), ("role", .text "doc-backlink")].filterMap
      attribute?).map readBack = _
    rw [List.filterMap_cons_some hhref, List.filterMap_cons_some hrole, List.filterMap_nil,
      List.map_cons, List.map_cons, List.map_nil, readBack, readBack,
      show lowered "href".toList = "href" by decide, show lowered "role".toList = "role" by decide]
  rw [backlink, writtenElementsAll, writtenElements, hread]
  rfl

theorem backlinks_backlink (target : String) :
    ((writtenElementsAll [backlink target]).filter isBacklink).map (fun e => e.2.lookup "href") =
      [some ("#" ++ target)] := by
  have hback : isBacklink ("a", [("href", "#" ++ target), ("role", "doc-backlink")]) = true := rfl
  rw [writtenElements_backlink, List.filter_cons_of_pos hback]
  rfl

/-- A link back is the only one that is written for content in which there is none, unless the
content ends in a void element: then it is not written. -/
theorem filter_isBacklink_appendBacklink {content : List Html} {b : Html}
    (h : (writtenElementsAll content).filter isBacklink = []) :
    (writtenElementsAll (appendBacklink content b)).filter isBacklink =
      if lastIsVoid content then [] else (writtenElementsAll [b]).filter isBacklink := by
  fun_induction appendBacklink content b with
  | case1 => rfl
  | case2 tag key props kids =>
    have hlast : lastIsVoid [.element tag key props kids] = isVoid tag := rfl
    rw [writtenElementsAll, writtenElements, writtenElementsAll, List.append_nil] at h ⊢
    rw [hlast]
    cases hvoid : isVoid tag with
    | true =>
      rw [hvoid] at h
      exact h
    | false =>
      rw [hvoid, if_neg Bool.false_ne_true] at h
      rw [if_neg Bool.false_ne_true, if_neg Bool.false_ne_true, writtenElementsAll_append,
        ← List.cons_append, List.filter_append, h, List.nil_append]
  | case3 key kids =>
    have hlast : lastIsVoid [.fragment key kids] = false := rfl
    rw [writtenElementsAll, writtenElements, writtenElementsAll, List.append_nil] at h ⊢
    rw [hlast, if_neg Bool.false_ne_true, writtenElementsAll_append, List.filter_append, h,
      List.nil_append]
  | case4 h' rest helement hfragment ih =>
    have hlast : lastIsVoid (h' :: rest) = lastIsVoid rest := by
      cases rest with
      | cons => rfl
      | nil =>
        cases h' with
        | text => rfl
        | element => exact (helement _ _ _ _ rfl rfl).elim
        | fragment => exact (hfragment _ _ rfl rfl).elim
    rw [writtenElementsAll, List.filter_append, List.append_eq_nil_iff] at h
    rw [writtenElementsAll, List.filter_append, h.1, List.nil_append, hlast, ih h.2]

end Endnotes

namespace DocTree

variable {d : DocTree}

/-- The links back in the markup of a note: one, unless the body of its footnote ends in a void
element. -/
theorem backlinks_note (hd : d.Avoids isRoleName) (label : String) (index : Nat) (σ : Numbering) :
    backlinks (RawHtml.fragment ((d.endnotes ∅).note label index σ).1.markup) =
      if Node.endsInVoid (d.body label) then [] else
        [some ("#" ++ ((d.endnotes ∅).note label index σ).2.backlinkTarget label index)] := by
  have hstray : collect stray?
      (Render.present (Render.each (d.setting ∅) none 0 (d.body label) σ).1) = [] :=
    Render.stray_each hd.links (hd.body label) 0 none σ
  have hlast : lastIsVoid (Render.present (Render.each (d.setting ∅) none 0 (d.body label) σ).1) =
      Node.endsInVoid (d.body label) := Render.lastIsVoid_each (d.body label) 0 σ
  have htags : HasSmallTags [((d.endnotes ∅).note label index σ).1] := by
    rw [note_eq]
    refine allElements_element.2 ⟨by decide, Endnotes.allElements_appendBacklink
      (P := fun tag _ _ => isSmallName tag.toList = true) (hasSmallTags_of_stray hstray) ?_⟩
    exact allElements_element.2 ⟨by decide, allElements_text⟩
  rw [backlinks, ← markup_fragment_singleton, elementsOf_fragment_markup htags, note_eq,
    writtenElementsAll, writtenElements, writtenElementsAll, List.append_nil,
    if_neg (by decide), List.filter_cons_of_neg (by simp [isBacklink]),
    Endnotes.filter_isBacklink_appendBacklink (filter_isBacklink_of_stray hstray), hlast]
  split
  · rfl
  · exact Endnotes.backlinks_backlink _

/-- The links back in the markup of the item at a place in the endnotes. -/
theorem backlinks_of_runs (hd : d.Avoids isRoleName) {reached others : List String}
    {items : List Html} {τ : Numbering}
    (h : (d.endnotes ∅).Runs (d.content ∅).2 reached others items τ) {i : Nat} {item : Html}
    (hi : items[i]? = some item) :
    ∃ label, (reached ++ others)[i]? = some label ∧ item.key? = some label ∧
      backlinks (RawHtml.fragment item.markup) =
        if Node.endsInVoid (d.body label) then [] else
          [some ("#" ++ Numbering.referenceId (i + 1) 1)] := by
  refine exists_label_of_runs (P := fun label index item => item.key? = some label ∧
    backlinks (RawHtml.fragment item.markup) = if Node.endsInVoid (d.body label) then [] else
      [some ("#" ++ Numbering.referenceId index 1)]) h (fun σ label i hσ hlabel => ?_) hi
  refine ⟨by rw [note_eq]; rfl, ?_⟩
  rw [backlinks_note hd, d.backlinkTarget_note ∅ hσ hlabel]

/-- The links back in the markup of the notes of a document, where `τ` is the numbering that the
notes leave. -/
structure LinksBack (d : DocTree) (items : List Html) (τ : Numbering) : Prop where
  length_eq : items.length = τ.order.length
  /-- The markup of the item of a label has one anchor with the role of a link back, and it leads
  where the note of the label points back to. It has none if the footnote of the label ends in a
  void element. -/
  item : ∀ i item, items[i]? = some item → ∃ label, τ.order[i]? = some label ∧
    item.key? = some label ∧
      backlinks (RawHtml.fragment item.markup) =
        if Node.endsInVoid (d.body label) then [] else
          [some ("#" ++ τ.backlinkTarget label (i + 1))]

/-- **Links back are written** in all notes of a document without raw HTML, documents inside and
roles, but for the notes whose footnote ends in an image, a thematic break or a hard break. -/
theorem backlinks_written (d : DocTree) (hd : d.Avoids isRoleName) :
    ∃ content items τ,
      d.node.render ∅ = some (.fragment none
        (content ++ if items = [] then [] else [Endnotes.sectionOf items])) ∧
      (d.endnotes ∅).notes (d.content ∅).2 = (items, τ) ∧ d.LinksBack items τ := by
  obtain ⟨reached, others, items, τ, hruns, hnotes, hrender⟩ := d.exists_render
  have horder := order_of_runs hruns
  refine ⟨_, items, τ, hrender, hnotes, by rw [horder, hruns.length_items], fun i item hi => ?_⟩
  obtain ⟨label, hlabel, hkey, hback⟩ := backlinks_of_runs hd hruns hi
  rw [← horder] at hlabel
  refine ⟨label, hlabel, hkey, ?_⟩
  rw [hback, Numbering.backlinkTarget_eq (nodup_of_runs hruns) hlabel]

/-- A document with a footnote that ends in a thematic break, one that does not and one that is
not defined. -/
def ruled : DocTree where
  children :=
    [.container .para [.footnoteReference "a" ∅, .footnoteReference "b" ∅,
      .footnoteReference "c" ∅] ∅ ∅]
  attributes := ∅
  references := ∅
  autoReferences := ∅
  footnotes := .ofList
    [("a", ⟨"a", [.leaf .thematicBreak ∅, .unknown], ∅⟩),
    ("b", ⟨"b", [.leaf .thematicBreak ∅, .symb "wave" ∅], ∅⟩)]

theorem backlinks_written_ruled :
    ruled.Avoids isRoleName ∧ ∃ content items τ,
      ruled.node.render ∅ = some (.fragment none
        (content ++ if items = [] then [] else [Endnotes.sectionOf items])) ∧
      (ruled.endnotes ∅).notes (ruled.content ∅).2 = (items, τ) ∧ ruled.LinksBack items τ := by
  have havoids : ruled.Avoids isRoleName := ⟨by decide, by decide, by decide, by decide⟩
  exact ⟨havoids, backlinks_written ruled havoids⟩

/-- In the markup of its endnotes, the footnote that ends in a thematic break has no link back. -/
theorem backlinks_lost :
    ((ruled.endnotes ∅).notes (ruled.content ∅).2).1.map
        (fun item => backlinks (RawHtml.fragment item.markup)) =
      [[], [some "#fnref2"], [some "#fnref3"]] := by
  decide +kernel

end DocTree

end DocMarkup
