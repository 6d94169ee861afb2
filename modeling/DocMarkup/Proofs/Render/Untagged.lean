import DocMarkup.Proofs.Render.PlainTags
import DocMarkup.Proofs.Render.Relabel

/-!
# Outputs without their tags

The rendering of a tree in which the tags of nodes are chosen is, but for tags, the same for all
choices: what nodes are built as, where their content goes, what a table shows and where the links
back of the notes go does not depend on a tag. So an override that names a tag for a kind whose
nodes are elements changes nothing but tags.

## Main definitions

* `Html.untagged` : an output without its tags.
* `Node.tagged` : the output of a tree without overrides, with the tags of nodes chosen.

## Main results

* `Render.sameButTags_tagged` : outputs with other tags differ in tags alone.
* `Render.render_tagged` : the outputs of a tree with and without overrides that only name tags.
-/

namespace DocMarkup

namespace Html

mutual

/-- An output tree without its tags. -/
def untagged : Html → Html
  | text s => text s
  | element _ key props kids => element "" key props (untaggedAll kids)
  | fragment key kids => fragment key (untaggedAll kids)

/-- Trees side by side without their tags. -/
def untaggedAll : List Html → List Html
  | [] => []
  | h :: rest => h.untagged :: untaggedAll rest

end

mutual

/-- To leave out tags is to rename all of them alike. -/
theorem untagged_eq_relabel : (h : Html) → h.untagged = h.relabel (fun _ => "") id
  | text _ => rfl
  | element tag key props kids => by
      rw [untagged, relabel, untaggedAll_eq_relabelAll kids, id]
  | fragment key kids => by rw [untagged, relabel, untaggedAll_eq_relabelAll kids, id]

theorem untaggedAll_eq_relabelAll : (hs : List Html) →
    untaggedAll hs = relabelAll (fun _ => "") id hs
  | [] => rfl
  | h :: hs => by
      rw [untaggedAll, relabelAll, untagged_eq_relabel h, untaggedAll_eq_relabelAll hs]

end

theorem untagged_eq : untagged = relabel (fun _ => "") id := funext untagged_eq_relabel

theorem untaggedAll_eq : untaggedAll = relabelAll (fun _ => "") id :=
  funext untaggedAll_eq_relabelAll

theorem untagged_retag (name : Option String) (h : Html) :
    (h.retag name).untagged = h.untagged := by
  cases h <;> rfl

end Html

namespace Render

open Html

variable {links : Links} {n : Node} {key : Option String} {tight : Option Bool} {σ : Numbering}

/-- The output of a node but for tags, from what is rendered inside it but for tags. -/
theorem untagged_output {rendered rendered' : List (Option Html)}
    (h : rendered.map (Option.map untagged) = rendered'.map (Option.map untagged)) :
    (output ⟨∅, links⟩ key tight σ rendered n).map untagged =
      (output ⟨∅, links⟩ key tight σ rendered' n).map untagged := by
  rw [untagged_eq] at h ⊢
  rw [← n.holding_children]
  refine relabel_output rfl ?_ (fun _ => ?_) rfl rfl fun _ _ => rfl
  · rw [relabelAll_present, relabelAll_present, h]
  · rw [TableParts.relabel_ofList, TableParts.relabel_ofList, h]

/-- Two renderings of one thing that leave the same numbering and differ in tags at most. -/
def SameButTags {α : Type} (erase : α → α) (a b : Rendering α) : Prop :=
  ∀ σ, erase (a σ).1 = erase (b σ).1 ∧ (a σ).2 = (b σ).2

variable {tags tags' : Kind → Option String}

theorem sameButTags_inOrder {f g : Option String → Node → Rendering (Option Html)} {ns : List Node}
    (h : ∀ m ∈ ns, ∀ key, SameButTags (Option.map untagged) (f key m) (g key m)) (i : Nat) :
    SameButTags (List.map (Option.map untagged)) (inOrder f i ns) (inOrder g i ns) := by
  induction ns generalizing i with
  | nil => exact fun σ => ⟨rfl, rfl⟩
  | cons n ns ih =>
    intro σ
    obtain ⟨hfirst, hstate⟩ := h n List.mem_cons_self (some (Decimal.text i)) σ
    obtain ⟨hrest, hend⟩ := ih (fun m hm => h m (List.mem_cons_of_mem n hm)) (i + 1)
      (g (some (Decimal.text i)) n σ).2
    have hrun (f : Option String → Node → Rendering (Option Html)) :
        inOrder f i (n :: ns) σ =
          ((f (some (Decimal.text i)) n σ).1 ::
              (inOrder f (i + 1) ns (f (some (Decimal.text i)) n σ).2).1,
            (inOrder f (i + 1) ns (f (some (Decimal.text i)) n σ).2).2) := rfl
    rw [hrun, hrun, hstate]
    exact ⟨by rw [List.map_cons, List.map_cons, hfirst, hrest], hend⟩

theorem sameButTags_present {a b : Rendering (List (Option Html))}
    (h : SameButTags (List.map (Option.map untagged)) a b) :
    SameButTags untaggedAll (present <$> a) (present <$> b) := fun σ => by
  refine ⟨?_, (h σ).2⟩
  change untaggedAll (present (a σ).1) = untaggedAll (present (b σ).1)
  have hmap := (h σ).1
  rw [untagged_eq] at hmap
  rw [untaggedAll_eq, relabelAll_present, relabelAll_present, hmap]

end Render

namespace Endnotes

open Html Render

/-- Notes that are made of bodies which differ in tags at most differ in tags at most. -/
theorem untagged_note {e d : Endnotes} (he : e.overrides = ∅) (he' : d.overrides = ∅)
    (hfootnotes : e.footnotes = d.footnotes)
    (hbodies : ∀ label, SameButTags untaggedAll ((e.bodies.lookup label).getD (pure []))
      ((d.bodies.lookup label).getD (pure []))) (label : String) (index : Nat) (σ : Numbering) :
    (e.note label index σ).1.untagged = (d.note label index σ).1.untagged ∧
      (e.note label index σ).2 = (d.note label index σ).2 := by
  rw [untaggedAll_eq] at hbodies
  rw [untagged_eq]
  refine relabel_note (by rw [he]; rfl) (he.trans he'.symm) (fun label => ?_) hbodies label index σ
  rw [footnote, footnote, hfootnotes]

end Endnotes

namespace Render

open Html

theorem untagged_taggedSection {items items' : List Html}
    (h : items.map untagged = items'.map untagged) (tags tags' : Kind → Option String) :
    untaggedAll (taggedSection tags items).toList =
      untaggedAll (taggedSection tags' items').toList := by
  have hall (hs : List Html) : untaggedAll hs = hs.map untagged := by
    rw [untaggedAll_eq, relabelAll_eq_map, untagged_eq]
  have hretag (name : Option String) (hs : List Html) :
      untaggedAll (hs.map (retag name)) = hs.map untagged := by
    rw [hall, List.map_map]
    exact List.map_congr_left fun h _ => untagged_retag name h
  have hempty : items.isEmpty = items'.isEmpty := by
    rw [untagged_eq, ← relabelAll_eq_map, ← relabelAll_eq_map] at h
    exact isEmpty_eq_of_relabelAll h
  rw [taggedSection, taggedSection, hempty]
  split
  · rfl
  · simp only [Option.toList_some, untaggedAll, untagged_retag, Endnotes.sectionOf, untagged,
      hretag, h]

/-- **Tags make no difference to the rest of an output.** -/
theorem sameButTags_tagged (tags tags' : Kind → Option String) (n : Node) (links : Links)
    (key : Option String) (tight : Option Bool) :
    SameButTags (Option.map untagged) (tagged tags links key tight n)
      (tagged tags' links key tight n) := by
  induction n using Node.induction_rendered generalizing links key tight with
  | content n hn ih =>
    intro σ
    obtain ⟨hcontent, hstate⟩ := sameButTags_inOrder
      (fun m hm key => ih ∅ tight m hm links key n.tightness) 0
      (n.ownLabels.foldl Numbering.record σ)
    have hretag (name : Option String) (o : Option Html) :
        (o.map (retag name)).map untagged = o.map untagged := by
      cases o with
      | none => rfl
      | some h => exact congrArg some (untagged_retag name h)
    rw [tagged_run hn, tagged_run hn]
    exact ⟨by rw [hretag, hretag, untagged_output hcontent], hstate⟩
  | document kids attrs refs auto notes ihKids ihNotes =>
    intro σ
    obtain ⟨hcontent, hstate⟩ := sameButTags_present (sameButTags_inOrder
      (fun m hm key => ihKids m hm ⟨refs, auto⟩ key none) 0) (Numbering.ofLabels
        (Node.mentionsAll kids))
    have hbodies (label : String) : SameButTags untaggedAll
        (((taggedEndnotes tags kids attrs refs auto notes).bodies.lookup label).getD (pure []))
        (((taggedEndnotes tags' kids attrs refs auto notes).bodies.lookup label).getD
          (pure [])) := by
      rw [lookup_bodies_taggedEndnotes, lookup_bodies_taggedEndnotes]
      cases hlookup : notes.lookup label with
      | none => exact fun σ => ⟨rfl, rfl⟩
      | some f =>
        exact sameButTags_present (sameButTags_inOrder (fun m hm key =>
          ihNotes _ (OrderedMap.mem_of_lookup_eq_some hlookup) m hm ⟨refs, auto⟩ key none) 0)
    have hitems (σ : Numbering) :
        (((taggedEndnotes tags kids attrs refs auto notes).notes σ).1.map untagged) =
          ((taggedEndnotes tags' kids attrs refs auto notes).notes σ).1.map untagged :=
      (Endnotes.notes_map_eq (e := taggedEndnotes tags kids attrs refs auto notes)
        (d := taggedEndnotes tags' kids attrs refs auto notes)
        (Endnotes.untagged_note rfl rfl rfl hbodies) rfl rfl σ).1
    rw [tagged_doc_run, tagged_doc_run]
    refine ⟨congrArg (fun hs => some (fragment key hs)) ?_, rfl⟩
    rw [untaggedAll_eq, relabelAll_append, relabelAll_append, ← untaggedAll_eq]
    refine congrArg₂ (· ++ ·) hcontent (untagged_taggedSection ?_ tags tags')
    rw [show (inOrder _ 0 kids _).2 = _ from hstate, hitems]
    rfl

end Render

/-- The output of a tree without overrides, in which the element that each node is built as has the
tag that is given for the kind of the node, if one is given. -/
def Node.tagged (tags : Kind → Option String) (n : Node) : Option Html :=
  (Render.tagged tags {} none none n {}).1

namespace Render

/-- **Overrides that only name tags change tags alone.** Under them, a tree renders to what it
renders to without overrides, except that the element of each node of a kind has the tag that they
name for the kind, if they name one; keys, properties, texts and the shape of the output are the
same. -/
theorem render_tagged (ov : Overrides) (hov : ov.namesTags = true) (n : Node) :
    n.render ov = n.tagged ov.tag? ∧ n.render ∅ = n.tagged (fun _ => none) ∧
      (n.render ov).map Html.untagged = (n.render ∅).map Html.untagged := by
  have htagged : n.render ov = n.tagged ov.tag? := by
    rw [Node.render, node_eq_tagged hov, Node.tagged]
  have hplain : n.render ∅ = n.tagged (fun _ => none) := by
    rw [Node.render, node_eq_tagged Overrides.namesTags_empty, Overrides.tag?_empty, Node.tagged]
  refine ⟨htagged, hplain, ?_⟩
  rw [htagged, hplain]
  exact (sameButTags_tagged ov.tag? (fun _ => none) n {} none none {}).1

/-- A document with elements of many kinds, among them such that hold elements of their own. -/
def manifold : Node :=
  .doc
    [.heading 2 [.literal .code "h" ∅] ∅ ∅,
      .list .task true none
        [.taskListItem .checked [.container .para [.literal .str "t" ∅] ∅ ∅] ∅] ∅,
      .container .table [.row true [.cell true .left [.footnoteReference "f" ∅] ∅] ∅] ∅ ∅,
      .codeBlock (some "lean") "c" ∅]
    ∅ ∅ ∅ [("f", ⟨"f", [.container .para [.link .image (some "i") none [] ∅] ∅ ∅], ∅⟩)]

/-- Overrides that name tags for elements, one of them by the other spelling of its kind. -/
def elementTags : Overrides :=
  .ofList [(.literal .verbatim, .tag "tt"), (.heading, .tag "header"), (.taskListItem, .tag "dd"),
    (.row, .tag "div"), (.footnoteReference, .tag "span"), (.codeBlock, .tag "samp"),
    (.endnotes, .tag "aside"), (.footnote, .tag "dt"), (.link .image, .tag "picture")]

theorem render_tagged_manifold :
    let tags (h : Option Html) := (Html.subtreesAll h.toList).filterMap Html.tag?
    elementTags.namesTags = true ∧
      tags (manifold.render ∅) = ["h2", "code", "ul", "li", "input", "table", "thead", "tr", "th",
        "a", "sup", "pre", "code", "section", "hr", "ol", "li", "p", "img", "a"] ∧
      tags (manifold.render elementTags) = ["header", "tt", "ul", "dd", "input", "table", "thead",
        "div", "th", "span", "sup", "samp", "code", "aside", "hr", "ol", "dt", "p", "picture",
        "a"] ∧
      manifold.render elementTags = manifold.tagged elementTags.tag? ∧
      (manifold.render elementTags).map Html.untagged = (manifold.render ∅).map Html.untagged :=
  have h := render_tagged elementTags (by decide) manifold
  ⟨by decide, by decide +kernel, by decide +kernel, h.1, h.2.2⟩

end Render

end DocMarkup
