import DocMarkup.Proofs.Markup.Keys
import DocMarkup.Proofs.Render.Safety
import DocMarkup.Proofs.Render.TableGroups

/-!
# Siblings have different keys

With overrides that only name tags, no two siblings in the rendering of a tree have the same key,
wherever they come from. Children stand at the numerals of their places, whether or not there is
something at each place. What is put beside them has a name for a key, which is no numeral: the box
of a task, the parts of a table, the endnotes. The notes have the labels of their footnotes, and no
label gets a second note. In raw HTML the places are counted again in each element.

## Main results

* `Render.keyedAs_output` : the output of a node from what is rendered inside it.
* `Endnotes.order_drain` : the notes have the labels in the order of their numbers.
* `Render.keys_differ` : no two siblings in the rendering of a tree have the same key.
-/

namespace DocMarkup

open Html (KeysDiffer KeysDifferInside KeyedAs KeyedFrom keys)
open Render (present)

/-- The box of a task has a key that no child has. -/
theorem Html.keyedAs_checkbox (checkbox : Option Checkbox) :
    KeyedAs (some "checkbox") (checkbox.map Html.checkbox).toList := by
  cases checkbox with
  | none => exact .nil
  | some => exact .element .nil

/-! ### Tables -/

/-- A table shows nothing twice. -/
theorem subperm_tableOrder {α : Type} (children : List (Node × α)) :
    (tableOrder children).Subperm (children.map Prod.snd) :=
  (tableOrder_perm children).subperm.trans (shownChildren_sublist false children).subperm

namespace TableParts

theorem keyedAs_rowGroup (name : String) {rows : List Html} (h : KeysDiffer rows) :
    KeyedAs (some name) (rowGroup name rows) := by
  unfold rowGroup
  split
  · exact .nil
  · exact .element h

/-- The children of a table stand at their places, and its groups of rows have keys that no child
has. -/
theorem keysDiffer_toList {kids : List Node} {rendered : List (Option Html)}
    (h : KeyedFrom Decimal.text 0 (present rendered)) :
    KeysDiffer (ofList (kids.zip rendered)).toList := by
  have hzip : ((kids.zip rendered).map Prod.snd).Sublist rendered := by
    rw [List.zip_eq_zip_take_min, List.map_snd_zip (by simp)]
    exact List.take_sublist _ _
  have hshown : KeyedFrom Decimal.text 0 (present (tableOrder (kids.zip rendered))) := by
    obtain ⟨l, hperm, hsub⟩ := subperm_tableOrder (kids.zip rendered)
    exact h.of_subperm ⟨present l, hperm.filterMap id, (hsub.trans hzip).filterMap id⟩
  rw [← parts_ofList] at hshown
  generalize ofList (kids.zip rendered) = t at hshown ⊢
  have hrows : (t.head ++ t.body).Sublist
      (t.caption.join.toList ++ (t.head ++ t.body) ++ t.other) :=
    (List.sublist_append_right _ _).trans (List.sublist_append_left _ _)
  have hhead := keyedAs_rowGroup "thead"
    (hshown.of_subperm ((List.sublist_append_left _ _).trans hrows).subperm).differ
  have hbody := keyedAs_rowGroup "tbody"
    (hshown.of_subperm ((List.sublist_append_right _ _).trans hrows).subperm).differ
  have hrest : KeyedFrom Decimal.text 0 (t.caption.join.toList ++ t.other) :=
    hshown.of_subperm ((List.sublist_append_left _ _).append (List.Sublist.refl _)).subperm
  have hgroups : KeysDiffer (rowGroup "thead" t.head ++
      (rowGroup "tbody" t.body ++ (t.caption.join.toList ++ t.other))) := by
    refine hhead.append (hbody.append hrest.differ (hrest.notMem_keys (by decide))) fun hk => ?_
    rw [Html.keys_append, List.mem_append] at hk
    rcases hk with hk | hk
    · exact absurd (Option.some.inj (hbody.key_eq _ hk)) (by decide)
    · exact hrest.notMem_keys (by decide) hk
  -- The caption comes first; here it was put behind the groups.
  refine hgroups.of_subperm (List.Perm.subperm ?_)
  rw [toList, List.append_assoc (t.caption.join.toList), ← List.append_assoc _ _ (_ ++ t.other),
    ← List.append_assoc (_ ++ _) t.caption.join.toList]
  exact List.perm_append_comm.append_right _

end TableParts

/-! ### Nodes -/

namespace Render

variable {ov : Overrides} {links : Links} {tight : Option Bool} {n : Node} {key : Option String}
  {tag : String} {own : Props} {kids : List Html}

theorem keysDiffer_marked (k : ContainerKind) (h : KeysDiffer kids) :
    KeysDiffer (Single.marked k kids) := by
  unfold Single.marked
  split
  · exact .concat rfl Html.keysDifferInside_text (.cons rfl Html.keysDifferInside_text h)
  · exact h

/-- A single tree without a key, in which siblings have different keys. -/
theorem keysDiffer_singleton {h : Html} (hkey : h.key? = none) (hinside : KeysDifferInside [h]) :
    KeysDiffer [h] := .cons hkey hinside .nil

theorem keysDiffer_text (s : String) : KeysDiffer [.text s] :=
  keysDiffer_singleton rfl Html.keysDifferInside_text

section Single

variable (hov : ov.onlyTags = true)

include hov

/-- What is built for a node stands at the node's key, with or without an override. -/
theorem keyedAs_build {r : Request} (hkids : KeysDiffer r.children) {byDefault : Request → Html}
    (hdefault : KeyedAs r.key [byDefault r]) : KeyedAs r.key [ov.build byDefault r] := by
  rcases Overrides.build_cases hov byDefault r with h | ⟨tag, h⟩
  · rwa [h]
  · rw [h]
    exact .element hkids

theorem keyedAs_request (hkids : KeysDiffer kids) (kind : Kind) (own : Props) (inputs : Inputs) :
    KeyedAs key [Single.element ov tag (Single.request kind n key own inputs kids)] :=
  keyedAs_build (r := Single.request kind n key own inputs kids) hov hkids (.element hkids)

theorem keyedAs_group (hkids : KeysDiffer kids) (kind : Kind) (inputs : Inputs) :
    KeyedAs key [Single.group ov (Single.request kind n key ∅ inputs kids)] :=
  keyedAs_build (r := Single.request kind n key ∅ inputs kids) hov hkids (.fragment hkids)

theorem keyedAs_bareText (kind : Kind) (text : String) (inputs : Inputs) :
    KeyedAs key [Single.bareText ov kind n key text inputs] :=
  keyedAs_build (r := Single.request kind n key ∅ inputs [.text text]) hov (keysDiffer_text text)
    .text

theorem keyedAs_container (k : ContainerKind) (hkids : KeysDiffer kids) :
    KeyedAs key (Single.container ov k n key kids).toList := by
  have hmarked := keysDiffer_marked k hkids
  unfold Single.container
  dsimp only
  split
  · exact .nil
  · split
    · exact keyedAs_request hov hmarked _ _ _
    · exact keyedAs_group hov hmarked _ _

/-- The box of a task goes before the content, which has numerals for keys. -/
theorem keyedAs_item (kind : Kind) (checkbox : Option Checkbox)
    (hkids : KeyedFrom Decimal.text 0 kids) :
    KeyedAs key [Single.item ov kind n key tight checkbox kids] := by
  refine keyedAs_request hov (KeyedAs.append (k := "checkbox") ?_ hkids.differ
    (hkids.notMem_keys (by decide))) _ _ _
  split
  · exact .nil
  · exact Html.keyedAs_checkbox checkbox

theorem keyedAs_raw (k : RawKind) (format text : String) :
    KeyedAs key (Single.raw ov k n key format text).toList := by
  unfold Single.raw
  split
  · exact .nil
  · refine keyedAs_group hov ?_ _ _
    split
    · exact (RawHtml.keyedFrom_sanitizeNodes _ 0 _).differ
    · exact keysDiffer_text text

theorem keyedAs_literal (k : LiteralKind) (text : String) :
    KeyedAs key [Single.literal ov k n key text] := by
  cases k with
  | str => exact keyedAs_bareText hov _ _ _
  | _ => exact keyedAs_request hov (keysDiffer_text _) _ _ _

theorem keyedAs_leaf (k : LeafKind) : KeyedAs key [Single.leaf ov k n key] := by
  cases k with
  | thematicBreak | hardBreak | hardbreak => exact keyedAs_request hov .nil _ _ _
  | softBreak | softbreak | nonBreakingSpace => exact keyedAs_bareText hov _ _ _

end Single

variable {σ : Numbering} {rendered : List (Option Html)}

/-- **The output of a node stands at the node's key** and has siblings with different keys only, if
what is rendered inside the node stands at its places. -/
theorem keyedAs_output (hov : ov.onlyTags = true)
    (h : KeyedFrom Decimal.text 0 (present rendered)) :
    KeyedAs key (output ⟨ov, links⟩ key tight σ rendered n).toList := by
  cases n with
  | doc | unknown => exact .nil
  | container k kids attrs auto =>
    by_cases htable : k = .table
    · subst htable
      exact keyedAs_container hov .table (TableParts.keysDiffer_toList h)
    · by_cases hitem : k = .listItem
      · subst hitem
        exact keyedAs_item hov _ none h
      · rw [output_container htable hitem]
        exact keyedAs_container hov k h.differ
  | heading | row | cell | footnote | list | orderedList =>
    exact keyedAs_request hov h.differ _ _ _
  | footnoteReference =>
    refine keyedAs_request hov (keysDiffer_singleton rfl ?_) _ _ _
    exact Html.keysDifferInside_element.2 (keysDiffer_text _)
  | smartPunctuation | symb => exact keyedAs_bareText hov _ _ _
  | literal k text => exact keyedAs_literal hov k text
  | codeBlock =>
    refine keyedAs_request hov (keysDiffer_singleton rfl ?_) _ _ _
    exact Html.keysDifferInside_element.2 (keysDiffer_text _)
  | raw k format text => exact keyedAs_raw hov k format text
  | link k =>
    cases k with
    | link => exact keyedAs_request hov h.differ _ _ _
    | image => exact keyedAs_request hov .nil _ _ _
  | taskListItem checkbox => exact keyedAs_item hov _ (some checkbox) h
  | leaf k => exact keyedAs_leaf hov k

theorem text_injective : Decimal.text.Injective := fun _ _ => Decimal.text_inj.1

theorem keyedFrom_each {s : Setting} {ns : List Node}
    (h : ∀ m ∈ ns, ∀ key σ, KeyedAs key (node s key tight m σ).1.toList) (i : Nat)
    (σ : Numbering) : KeyedFrom Decimal.text i (present (each s tight i ns σ).1) := by
  induction ns generalizing i σ with
  | nil =>
    rw [each_nil]
    exact .nil
  | cons n ns ih =>
    rw [each_cons, present_cons]
    exact .append text_injective (h n List.mem_cons_self _ _)
      (ih (fun m hm => h m (List.mem_cons_of_mem n hm)) (i + 1) _)

end Render

/-! ### Endnotes -/

namespace Endnotes

open Render

variable {e : Endnotes} {cites : String → List String} {σ : Numbering} {b : Html}
  {content : List Html}

/-- A link without a key at the end of content changes no keys. -/
theorem keys_appendBacklink (hb : b.key? = none) :
    keys (appendBacklink content b) = keys content := by
  fun_induction appendBacklink content b with
  | case1 => exact Html.keys_cons_of_none hb
  | case2 | case3 => rfl
  | case4 h rest _ _ ih =>
    rw [keys, List.filterMap_cons, keys, List.filterMap_cons, ← keys, ih, keys]

theorem keysDiffer_appendBacklink (h : KeysDiffer content) (hb : b.key? = none)
    (hinside : KeysDifferInside [b]) : KeysDiffer (appendBacklink content b) where
  nodup := by
    rw [keys_appendBacklink hb]
    exact h.nodup
  inside := by
    have hcontent := h.inside
    clear h
    fun_induction appendBacklink content b with
    | case1 => exact hinside
    | case2 tag key props kids =>
      exact Html.keysDifferInside_element.2
        (.concat hb hinside (Html.keysDifferInside_element.1 hcontent))
    | case3 key kids =>
      exact Html.keysDifferInside_fragment.2
        (.concat hb hinside (Html.keysDifferInside_fragment.1 hcontent))
    | case4 h rest _ _ ih =>
      obtain ⟨hfirst, hrest⟩ := Html.keysDifferInside_cons.1 hcontent
      exact Html.keysDifferInside_cons.2 ⟨hfirst, ih hrest⟩

/-- Siblings in what the bodies of the footnotes render to have different keys. -/
def KeyedBodies (e : Endnotes) : Prop :=
  ∀ label body, e.bodies.lookup label = some body → ∀ σ, KeysDiffer (body σ).1

section Keyed

variable (hov : e.overrides.onlyTags = true)

include hov

/-- The note of a label has the label as its key. -/
theorem key?_note (label : String) (index : Nat) (σ : Numbering) :
    (e.note label index σ).1.key? = some label := by
  change (Single.footnote ..).key? = _
  rcases Overrides.build_cases hov (Request.element "li") _ with h | ⟨tag, h⟩
  · rw [Single.footnote, Single.element, h]
    rfl
  · rw [Single.footnote, Single.element, h]
    rfl

theorem keysDiffer_note (hb : e.KeyedBodies) (label : String) (index : Nat) (σ : Numbering) :
    KeysDiffer [(e.note label index σ).1] := by
  have hbody : KeysDiffer (((e.bodies.lookup label).getD (pure [])) σ).1 := by
    cases h : e.bodies.lookup label with
    | none => exact .nil
    | some body => exact hb label body h σ
  exact (keyedAs_request hov (keysDiffer_appendBacklink hbody rfl
    (Html.keysDifferInside_element.2 (keysDiffer_text _))) _ _ _).differ

/-- **The notes of a run have the labels as keys** that stand in the order from the place on where
the run starts: the labels before that place and the keys of the notes are the beginning of the
order after the run. -/
theorem order_drain (he : e.Cites cites) (fuel next : Nat) (σ : Numbering) :
    σ.order.take next ++ keys (e.drain fuel next σ).1 <+: (e.drain fuel next σ).2.order := by
  induction fuel generalizing next σ with
  | zero => exact (List.append_nil _).symm ▸ List.take_prefix next σ.order
  | succ fuel ih =>
    cases h : σ.order[next]? with
    | none =>
      rw [drain_of_none h]
      exact (List.append_nil _).symm ▸ List.take_prefix next σ.order
    | some label =>
      obtain ⟨later, hlater⟩ : σ.order <+: (e.note label (next + 1) σ).2.order := by
        rw [he]
        exact Numbering.order_prefix_foldl_record _ _
      obtain ⟨hlt, hlabel⟩ := List.getElem?_eq_some_iff.1 h
      have htake : (e.note label (next + 1) σ).2.order.take (next + 1) =
          σ.order.take next ++ [label] := by
        rw [← hlater, List.take_append_of_le_length hlt, List.take_succ_eq_append_getElem hlt,
          hlabel]
      have hkeys (rest : List Html) :
          keys ((e.note label (next + 1) σ).1 :: rest) = label :: keys rest :=
        List.filterMap_cons_some (key?_note hov label (next + 1) σ)
      have hrest := ih (next + 1) (e.note label (next + 1) σ).2
      rw [htake, List.append_assoc, List.singleton_append, ← hkeys] at hrest
      rw [drain_of_some h]
      exact hrest

end Keyed

/-- What a run makes are notes. -/
theorem exists_note_of_mem_drain {fuel next : Nat} {h : Html}
    (hm : h ∈ (e.drain fuel next σ).1) : ∃ label index τ, h = (e.note label index τ).1 := by
  induction fuel generalizing next σ with
  | zero => exact absurd hm List.not_mem_nil
  | succ fuel ih =>
    cases hlabel : σ.order[next]? with
    | none =>
      rw [drain_of_none hlabel] at hm
      exact absurd hm List.not_mem_nil
    | some label =>
      rw [drain_of_some hlabel] at hm
      rcases List.mem_cons.1 hm with rfl | hm
      · exact ⟨label, next + 1, σ, rfl⟩
      · exact ih hm

theorem nodup_order_drain (he : e.Cites cites) (fuel next : Nat) (hσ : σ.order.Nodup) :
    (e.drain fuel next σ).2.order.Nodup := by
  induction fuel generalizing next σ with
  | zero => exact hσ
  | succ fuel ih =>
    cases hlabel : σ.order[next]? with
    | none =>
      rw [drain_of_none hlabel]
      exact hσ
    | some label =>
      rw [drain_of_some hlabel]
      exact ih _ (he.nodup_note hσ label (next + 1))

section Notes

variable (hov : e.overrides.onlyTags = true) (hb : e.KeyedBodies) (he : e.Cites cites)
  (hσ : σ.order.Nodup)

include hov

theorem length_keys_drain (fuel next : Nat) (σ : Numbering) :
    (keys (e.drain fuel next σ).1).length = (e.drain fuel next σ).1.length := by
  have hkeys : keys (e.drain fuel next σ).1 =
      (e.drain fuel next σ).1.map fun h => h.key?.getD "" := by
    refine List.filterMap_eq_map_iff_forall_eq_some.2 fun h hm => ?_
    obtain ⟨label, index, τ, rfl⟩ := exists_note_of_mem_drain hm
    rw [key?_note hov]
    rfl
  rw [hkeys, List.length_map]

include hb he hσ

/-- **No two notes have the same key**: their keys are the labels at the beginning of the order
that is left in the end. -/
theorem keysDiffer_notes : KeysDiffer (e.notes σ).1 := by
  rw [notes_run]
  dsimp only
  generalize hmid : (e.footnotes.map Prod.fst).foldl Numbering.assign (e.drain e.bound 0 σ).2 = τ
  have hτ : τ.order.Nodup := by
    rw [← hmid, Numbering.order_foldl_assign _ (nodup_order_drain he _ _ hσ)]
    exact nodup_eraseDups _
  have hcited : keys (e.drain e.bound 0 σ).1 <+: τ.order := by
    rw [← hmid]
    exact (order_drain hov he e.bound 0 σ).trans (Numbering.order_prefix_foldl_assign _ _)
  have hall := order_drain hov he e.bound (e.drain e.bound 0 σ).1.length τ
  rw [← length_keys_drain hov, ← List.prefix_iff_eq_take.1 hcited, length_keys_drain hov,
    ← Html.keys_append] at hall
  refine ⟨(nodup_order_drain he _ _ hτ).sublist hall.sublist,
    Html.keysDifferInside_iff.2 fun h hm => ?_⟩
  obtain ⟨label, index, τ, rfl⟩ : ∃ label index τ, h = (e.note label index τ).1 := by
    rcases List.mem_append.1 hm with hm | hm <;> exact exists_note_of_mem_drain hm
  exact (keysDiffer_note hov hb label index τ).inside

/-- The endnotes have a key of their own. -/
theorem keyedAs_render : KeyedAs (some "endnotes") (e.render σ).1.toList := by
  rw [render_fst_of_notes]
  split
  · exact .nil
  · have hitems : KeysDiffer [.element "hr" (some "hr") ∅ [],
        .element "ol" (some "ol") ∅ (e.notes σ).1] :=
      KeyedAs.append (k := "hr") (.element .nil)
        (KeyedAs.element (keysDiffer_notes hov hb he hσ)).differ fun hk => by
          exact absurd (List.mem_singleton.1 hk) (by decide)
    exact keyedAs_build (r := ⟨.endnotes, _, _, _, _, _⟩) hov hitems (.element hitems)

end Notes

end Endnotes

namespace Render

variable {ov : Overrides} {links : Links} {tight : Option Bool}

theorem keyedBodies_endnotesOf {kids : List Node} {attrs : Attributes} {refs auto : References}
    {notes : List (String × Footnote)}
    (h : ∀ label f, notes.lookup label = some f → ∀ m ∈ f.children, ∀ key σ,
      KeyedAs key (node ⟨ov, ⟨refs, auto⟩⟩ key none m σ).1.toList) :
    (endnotesOf ov kids attrs refs auto notes).KeyedBodies := by
  intro label body hlookup σ
  rw [endnotesOf, lookup_bodies] at hlookup
  obtain ⟨f, hf, rfl⟩ := Option.map_eq_some_iff.1 hlookup
  exact (keyedFrom_each (h label f hf) 0 σ).differ

/-- **What a node renders to stands at its key**, with different keys for all siblings inside. -/
theorem keyedAs_node (hov : ov.onlyTags = true) (n : Node) (key : Option String) (σ : Numbering) :
    KeyedAs key (node ⟨ov, links⟩ key tight n σ).1.toList := by
  induction n using Node.induction_rendered generalizing links tight key σ with
  | content n hdoc ih =>
    rw [node_run hdoc]
    exact keyedAs_output hov
      (keyedFrom_each (fun m hm key σ => ih ov tight m hm key σ) 0 _)
  | document kids attrs refs auto notes ihKids ihNotes =>
    have hcontent : KeyedFrom Decimal.text 0 (present (each ⟨ov, ⟨refs, auto⟩⟩ none 0 kids
        (Numbering.ofLabels (Node.mentionsAll kids))).1) :=
      keyedFrom_each (fun m hm key σ => ihKids m hm key σ) 0 _
    have hbodies : (endnotesOf ov kids attrs refs auto notes).KeyedBodies :=
      keyedBodies_endnotesOf fun label f hf m hm key σ =>
        ihNotes _ (OrderedMap.mem_of_lookup_eq_some hf) m hm key σ
    have hσ : (each ⟨ov, ⟨refs, auto⟩⟩ none 0 kids
        (Numbering.ofLabels (Node.mentionsAll kids))).2.order.Nodup := by
      rw [each_snd, Numbering.order_foldl_record, Numbering.order_ofLabels]
      · exact nodup_eraseDups _
      · rw [Numbering.order_ofLabels]
        exact nodup_eraseDups _
    have hendnotes := Endnotes.keyedAs_render hov hbodies (cites_endnotesOf notes) hσ
    rw [node_doc_run]
    refine keyedAs_group hov (hcontent.differ.append hendnotes.differ fun k hk hmem => ?_) _ _
    cases hendnotes.key_eq k hmem
    exact hcontent.notMem_keys (by decide) hk

/-- **Siblings have different keys.** With overrides that only name tags, the children of an
element or a group that have a key have different ones, everywhere in the rendering of a tree: rows
and groups of rows, the box of a task, the endnotes and the notes in them, and what is left of raw
HTML. -/
theorem keys_differ (ov : Overrides) (hov : ov.onlyTags = true) (n : Node) :
    ∀ h ∈ Html.subtreesAll (n.render ov).toList, (keys h.children).Nodup :=
  (keyedAs_node hov n none {}).differ.inside

/-- A document with keys of all sorts: a table with rows before its caption and after it, a task,
raw HTML with a blocked element, and footnotes of which one has a numeral for a label and others
have labels that are keys elsewhere. -/
def crowded : Node :=
  .doc
    [.container .table
      [.row true [.cell true .left [] ∅, .unknown, .cell true .right [] ∅] ∅,
        .container .span [] ∅ ∅,
        .row false [] ∅,
        .container .caption [.literal .str "c" ∅] ∅ ∅,
        .row true [] ∅]
      ∅ ∅,
    .unknown,
    .list .task true none
      [.taskListItem .checked
        [.container .para [.footnoteReference "endnotes" ∅, .footnoteReference "0" ∅] ∅ ∅] ∅] ∅,
    .raw .block "html" "<b><i>t</i><script></script>u<i></i></b><i></i>" ∅]
    ∅ ∅ ∅
    [("0", ⟨"0", [.container .para [.footnoteReference "hr" ∅] ∅ ∅], ∅⟩),
      ("ol", ⟨"ol", [.leaf .thematicBreak ∅, .leaf .hardBreak ∅], ∅⟩)]

theorem keys_differ_crowded :
    let all := Html.subtreesAll (crowded.render mainTags).toList
    mainTags.onlyTags = true ∧
      (all.map fun h => keys h.children).filter (· ≠ []) =
        [["0", "2", "3", "endnotes"], ["3", "thead", "tbody", "1"], ["0"], ["0", "2"], ["2", "4"],
          ["0"], ["checkbox", "0", "1"], ["raw-block-3-0", "raw-block-3-1"],
          ["raw-block-3-0-0", "raw-block-3-0-3"], ["hr", "ol"], ["endnotes", "0", "hr", "ol"],
          ["0"], ["0"], ["0", "1"]] ∧
      ∀ h ∈ all, (keys h.children).Nodup :=
  ⟨by decide, by decide +kernel, keys_differ mainTags (by decide) crowded⟩

end Render

end DocMarkup
