import DocMarkup.Proofs.Render.DocTree
import DocMarkup.Proofs.Render.EndnoteSection

/-!
# Overrides that only name tags

An override that names a tag for a kind whose nodes are elements changes the tags of these elements
and nothing else. To say so, a tree is rendered once without overrides and with the tags of its
nodes left open: each node is given what it is built as by default, and the element at the root of
that, and no element inside it, takes the tag that is chosen for the kind of the node. The endnotes
section and its items are the elements of kinds too. The rendering under overrides is the case in
which the tags are those of the overrides, and the one without overrides is the case in which none
is chosen.

## Main definitions

* `Kind.isElement` : whether nodes of a kind are elements by default.
* `Overrides.namesTags` : overrides that only name tags, for such kinds.
* `Render.tagged` : the rendering without overrides, with the tags of nodes chosen.

## Main results

* `Render.output_eq_retag` : the output of one node under such overrides.
* `Render.node_eq_tagged` : the rendering of a tree under such overrides.
-/

namespace DocMarkup

/-- Whether a node of the kind is an element where no override serves the kind. -/
def Kind.isElement : Kind → Bool
  | doc | smartPunctuation | symb | raw _ | literal .str => false
  | container .sectionGroup | container .definitionListItem | container .caption => false
  | container .doubleQuoted | container .singleQuoted => false
  | leaf .nonBreakingSpace | leaf .softBreak | leaf .softbreak => false
  | _ => true

/-- An element of the same kind borrows its override from an element. -/
theorem Kind.isElement_of_alias? {k l : Kind} (h : k.alias? = some l) :
    l.isElement = k.isElement := by
  cases k with
  | container k => cases k <;> cases h <;> rfl
  | literal k => cases k <;> cases h <;> rfl
  | leaf k => cases k <;> cases h <;> rfl
  | _ => cases h

namespace Overrides

/-- Whether all overrides only name tags, and only for kinds that are elements. -/
def namesTags (ov : Overrides) : Bool := ov.entries.all fun e => !e.2.isComponent && e.1.isElement

/-- The tag that the override which serves a kind names. -/
def tag? (ov : Overrides) (k : Kind) : Option String :=
  match ov.pick k with
  | some (.tag name) => some name
  | _ => none

variable {ov : Overrides}

/-- Such overrides serve a kind by a tag, and only if the kind is an element. -/
theorem pick_cases (hov : ov.namesTags = true) (k : Kind) :
    ov.pick k = none ∨ k.isElement = true ∧ ∃ name, ov.pick k = some (.tag name) := by
  have hmem {l : Kind} {o : Override} (h : ov.get? l = some o) :
      l.isElement = true ∧ ∃ name, o = .tag name := by
    have hall := List.all_eq_true.1 hov _ (OrderedMap.mem_of_lookup_eq_some h)
    simp only [Bool.and_eq_true, Bool.not_eq_true'] at hall
    cases o with
    | tag name => exact ⟨hall.2, name, rfl⟩
    | component build => cases hall.1
  cases h : ov.pick k with
  | none => exact Or.inl rfl
  | some o =>
    refine Or.inr ?_
    rcases Option.or_eq_some_iff.1 h with h | ⟨-, h⟩
    · obtain ⟨hk, name, rfl⟩ := hmem h
      exact ⟨hk, name, rfl⟩
    · obtain ⟨l, hl, h⟩ := Option.bind_eq_some_iff.1 h
      obtain ⟨hk, name, rfl⟩ := hmem h
      exact ⟨(Kind.isElement_of_alias? hl).symm.trans hk, name, rfl⟩

theorem pick_eq_none (hov : ov.namesTags = true) {k : Kind} (hk : k.isElement = false) :
    ov.pick k = none := by
  rcases pick_cases hov k with h | ⟨helement, -⟩
  · exact h
  · exact absurd (hk.symm.trans helement) Bool.false_ne_true

theorem tag?_eq_none (hov : ov.namesTags = true) {k : Kind} (hk : k.isElement = false) :
    ov.tag? k = none := by
  rw [tag?, pick_eq_none hov hk]

theorem hasComponent_eq_false (hov : ov.namesTags = true) (k : Kind) :
    ov.hasComponent k = false := by
  rw [hasComponent]
  rcases pick_cases hov k with h | ⟨-, name, h⟩ <;> rw [h] <;> rfl

theorem namesTags_empty : namesTags ∅ = true := rfl

theorem tag?_empty : tag? ∅ = fun _ => none := by
  funext k
  rw [tag?, pick_empty]

end Overrides

namespace Html

/-- The tree with another tag, if it is an element and a tag is given. -/
def retag (name : Option String) : Html → Html
  | element tag key props kids => element (name.getD tag) key props kids
  | h => h

theorem retag_none (h : Html) : h.retag none = h := by
  cases h <;> rfl

end Html

namespace Single

open Html

variable {ov : Overrides} (hov : ov.namesTags = true)

include hov

theorem element_eq_retag (tag : String) (r : Request) :
    element ov tag r = (element ∅ tag r).retag (ov.tag? r.kind) := by
  rw [element, element, Overrides.build, Overrides.build, Overrides.pick_empty, Overrides.tag?]
  rcases Overrides.pick_cases hov r.kind with h | ⟨-, name, h⟩ <;> rw [h] <;> rfl

/-- What is no element by default is left as it is. -/
theorem build_eq_retag {r : Request} (hr : r.kind.isElement = false) (byDefault : Request → Html) :
    ov.build byDefault r = (Overrides.build ∅ byDefault r).retag (ov.tag? r.kind) := by
  rw [Overrides.build, Overrides.build, Overrides.pick_empty, Overrides.pick_eq_none hov hr,
    Overrides.tag?_eq_none hov hr, retag_none]

theorem group_eq_retag {kind : Kind} (hk : kind.isElement = false) (n : Node)
    (key : Option String) (inputs : Inputs) (children : List Html) :
    group ov (request kind n key ∅ inputs children) =
      (group ∅ (request kind n key ∅ inputs children)).retag (ov.tag? kind) :=
  build_eq_retag hov hk _

theorem bareText_eq_retag {kind : Kind} (hk : kind.isElement = false) (n : Node)
    (key : Option String) (text : String) (inputs : Inputs) :
    bareText ov kind n key text inputs =
      (bareText ∅ kind n key text inputs).retag (ov.tag? kind) :=
  build_eq_retag hov hk _

theorem container_eq_retag (k : ContainerKind) (n : Node) (key : Option String)
    (children : List Html) :
    container ov k n key children =
      (container ∅ k n key children).map (retag (ov.tag? (.container k))) := by
  by_cases hcaption : k = .caption
  · subst hcaption
    rw [container, container, Overrides.pick_empty, Overrides.pick_eq_none hov rfl]
    split
    · rfl
    · exact congrArg some (element_eq_retag hov _ _)
  · have hne : decide (k = .caption) = false := decide_eq_false hcaption
    rw [container, container, hne]
    simp only [Bool.false_and, Bool.false_eq_true, if_false]
    cases k with
    | sectionGroup | definitionListItem | doubleQuoted | singleQuoted =>
      exact congrArg some (group_eq_retag hov rfl _ _ _ _)
    | _ => exact congrArg some (element_eq_retag hov _ _)

theorem item_eq_retag (kind : Kind) (n : Node) (key : Option String) (tight : Option Bool)
    (checkbox : Option Checkbox) (content : List Html) :
    item ov kind n key tight checkbox content =
      (item ∅ kind n key tight checkbox content).retag (ov.tag? kind) := by
  rw [item, item, Overrides.hasComponent_eq_false hov,
    Overrides.hasComponent_eq_false Overrides.namesTags_empty]
  exact element_eq_retag hov _ _

theorem literal_eq_retag (k : LiteralKind) (n : Node) (key : Option String) (text : String) :
    literal ov k n key text = (literal ∅ k n key text).retag (ov.tag? (.literal k)) := by
  cases k with
  | str => exact bareText_eq_retag hov rfl _ _ _ _
  | _ => exact element_eq_retag hov _ _

theorem leaf_eq_retag (k : LeafKind) (n : Node) (key : Option String) :
    leaf ov k n key = (leaf ∅ k n key).retag (ov.tag? (.leaf k)) := by
  cases k with
  | thematicBreak | hardBreak | hardbreak => exact element_eq_retag hov _ _
  | softBreak | softbreak | nonBreakingSpace => exact bareText_eq_retag hov rfl _ _ _ _

theorem raw_eq_retag (k : RawKind) (n : Node) (key : Option String) (format text : String) :
    raw ov k n key format text =
      (raw ∅ k n key format text).map (retag (ov.tag? (.raw k))) := by
  rw [raw, raw, Overrides.pick_empty, Overrides.pick_eq_none hov rfl]
  split
  · rfl
  · exact congrArg some (group_eq_retag hov rfl _ _ _ _)

end Single

namespace Render

open Html

/-! ### One node -/

variable {ov : Overrides} {links : Links} {n : Node} {key : Option String} {tight : Option Bool}
  {σ : Numbering}

/-- **The output of a node under overrides** that only name tags: the one that it has by default,
with another tag at its root. What is inside it is the same. -/
theorem output_eq_retag (hov : ov.namesTags = true) (rendered : List (Option Html)) :
    output ⟨ov, links⟩ key tight σ rendered n =
      (output ⟨∅, links⟩ key tight σ rendered n).map (retag (n.kind?.bind ov.tag?)) := by
  cases n with
  | doc | unknown => rfl
  | container k kids attrs auto =>
    by_cases htable : k = .table
    · subst htable
      exact Single.container_eq_retag hov .table _ _ _
    · by_cases hitem : k = .listItem
      · subst hitem
        exact congrArg some (Single.item_eq_retag hov _ _ _ _ _ _)
      · rw [output_container htable hitem, output_container htable hitem]
        exact Single.container_eq_retag hov _ _ _ _
  | link k => cases k <;> exact congrArg some (Single.element_eq_retag hov _ _)
  | taskListItem => exact congrArg some (Single.item_eq_retag hov _ _ _ _ _ _)
  | literal k text => exact congrArg some (Single.literal_eq_retag hov _ _ _ _)
  | leaf k => exact congrArg some (Single.leaf_eq_retag hov _ _ _)
  | raw k format text => exact Single.raw_eq_retag hov _ _ _ _ _
  | smartPunctuation | symb => exact congrArg some (Single.bareText_eq_retag hov rfl _ _ _ _)
  | _ => exact congrArg some (Single.element_eq_retag hov _ _)

/-! ### Whole trees -/

/-- What siblings render to in order, from a place on, each with its place as key. -/
def inOrder {α : Type} (f : Option String → α → Rendering (Option Html)) :
    Nat → List α → Rendering (List (Option Html))
  | _, [] => return []
  | i, a :: rest => do
    let h ← f (some (Decimal.text i)) a
    let hs ← inOrder f (i + 1) rest
    return h :: hs

/-- The endnotes section with its items, if there are any, each with the tag of its kind. -/
def taggedSection (tags : Kind → Option String) (items : List Html) : Option Html :=
  if items.isEmpty then none
  else some ((Endnotes.sectionOf (items.map (retag (tags .footnote)))).retag (tags .endnotes))

/-- The rendering of a node without overrides, in which the element that a node is built as has the
tag that is given for the kind of the node, if one is given. -/
def tagged (tags : Kind → Option String) (links : Links) (key : Option String)
    (tight : Option Bool) (n : Node) : Rendering (Option Html) :=
  match n with
  | .doc kids attrs refs auto notes =>
    Rendering.apart (Numbering.ofLabels (Node.mentionsAll kids)) do
      let content ← inOrder (fun key m => tagged tags ⟨refs, auto⟩ key none m.1) 0 kids.attach
      let items ← Endnotes.notes
        { overrides := ∅
          document := .doc kids attrs refs auto notes
          footnotes := notes
          bodies := notes.attach.map fun e => (e.1.1, present <$>
            inOrder (fun key m => tagged tags ⟨refs, auto⟩ key none m.1) 0 e.1.2.children.attach)
          bound := labelBound kids notes }
      return some (.fragment key (present content ++ (taggedSection tags items).toList))
  | n => fun before =>
    let content := inOrder (fun key m => tagged tags links key n.tightness m.1) 0
      (n.content ∅ tight).attach (n.ownLabels.foldl Numbering.record before)
    ((output ⟨∅, links⟩ key tight before content.1 n).map (retag (n.kind?.bind tags)), content.2)
termination_by sizeOf n
decreasing_by
  · exact Node.sizeOf_lt_of_mem_children (n := .doc kids attrs refs auto notes) m.2
  · exact Node.sizeOf_lt_of_mem_note e.2 m.2
  · exact Node.sizeOf_lt_of_mem_content m.2

theorem inOrder_attach {α : Type} (f : Option String → α → Rendering (Option Html)) (i : Nat)
    (l : List α) : inOrder (fun key a => f key a.1) i l.attach = inOrder f i l := by
  have hmap {β : Type} (g : β → α) (i : Nat) (l : List β) :
      inOrder (fun key b => f key (g b)) i l = inOrder f i (l.map g) := by
    induction l generalizing i with
    | nil => rfl
    | cons b l ih => rw [List.map_cons, inOrder, inOrder, ih]
  rw [hmap, List.attach_map_subtype_val]

/-- Siblings that are rendered alike one by one are rendered alike. -/
theorem each_eq_inOrder {s : Setting} {f : Option String → Node → Rendering (Option Html)}
    {ns : List Node} (h : ∀ m ∈ ns, ∀ key, node s key tight m = f key m) (i : Nat) :
    each s tight i ns = inOrder f i ns := by
  induction ns generalizing i with
  | nil => rw [each, inOrder]
  | cons n ns ih =>
    rw [each, inOrder, h n List.mem_cons_self, ih fun m hm => h m (List.mem_cons_of_mem n hm)]

variable {tags : Kind → Option String}

theorem tagged_run (hn : n.isDoc = false) :
    tagged tags links key tight n σ =
      let content := inOrder (fun key m => tagged tags links key n.tightness m) 0
        (n.content ∅ tight) (n.ownLabels.foldl Numbering.record σ)
      ((output ⟨∅, links⟩ key tight σ content.1 n).map (retag (n.kind?.bind tags)),
        content.2) := by
  rw [tagged]
  · exact congrArg (fun content : Rendering (List (Option Html)) =>
      (Option.map (retag (n.kind?.bind tags)) (output ⟨∅, links⟩ key tight σ
        (content (n.ownLabels.foldl Numbering.record σ)).1 n),
        (content (n.ownLabels.foldl Numbering.record σ)).2)) (inOrder_attach _ 0 _)
  · rintro kids attrs refs auto notes rfl
    cases hn

/-- The endnotes of a document without overrides, with the tags of nodes in them chosen. -/
def taggedEndnotes (tags : Kind → Option String) (kids : List Node) (attrs : Attributes)
    (refs auto : References) (notes : List (String × Footnote)) : Endnotes where
  overrides := ∅
  document := .doc kids attrs refs auto notes
  footnotes := notes
  bodies := notes.map fun e =>
    (e.1, present <$> inOrder (fun key m => tagged tags ⟨refs, auto⟩ key none m) 0 e.2.children)
  bound := labelBound kids notes

theorem lookup_bodies_taggedEndnotes (kids : List Node) (attrs : Attributes)
    (refs auto : References) (notes : List (String × Footnote)) (label : String) :
    (taggedEndnotes tags kids attrs refs auto notes).bodies.lookup label =
      (notes.lookup label).map fun f => present <$>
        inOrder (fun key m => tagged tags ⟨refs, auto⟩ key none m) 0 f.children := by
  rw [taggedEndnotes]
  induction notes with
  | nil => rfl
  | cons e notes ih =>
    rw [List.map_cons, List.lookup_cons, List.lookup_cons, ih]
    split <;> rfl

theorem tagged_doc_run (kids : List Node) (attrs : Attributes) (refs auto : References)
    (notes : List (String × Footnote)) :
    tagged tags links key tight (.doc kids attrs refs auto notes) σ =
      let content := inOrder (fun key m => tagged tags ⟨refs, auto⟩ key none m) 0 kids
        (Numbering.ofLabels (Node.mentionsAll kids))
      let items := (taggedEndnotes tags kids attrs refs auto notes).notes content.2
      (some (.fragment key (present content.1 ++ (taggedSection tags items.1).toList)), σ) := by
  have hbodies : (notes.attach.map fun e => (e.1.1, present <$>
      inOrder (fun key m => tagged tags ⟨refs, auto⟩ key none m.1) 0 e.1.2.children.attach)) =
        notes.map fun e => (e.1, present <$>
          inOrder (fun key m => tagged tags ⟨refs, auto⟩ key none m) 0 e.2.children) := by
    simp only [inOrder_attach (fun key m => tagged tags ⟨refs, auto⟩ key none m)]
    conv => rhs; rw [← List.attach_map_subtype_val notes, List.map_map]
    rfl
  rw [tagged, inOrder_attach (fun key m => tagged tags ⟨refs, auto⟩ key none m), hbodies]
  rfl

end Render

namespace Endnotes

open Html

/-! ### Notes of two renderings -/

section Lockstep

variable {e d : Endnotes} {f g : Html → Html}
  (h : ∀ label index σ, f (e.note label index σ).1 = g (d.note label index σ).1 ∧
    (e.note label index σ).2 = (d.note label index σ).2)

include h

/-- What two loops make of the notes of each label alike, they make alike of all notes. -/
theorem drain_map_eq (fuel next : Nat) (σ : Numbering) :
    (e.drain fuel next σ).1.map f = (d.drain fuel next σ).1.map g ∧
      (e.drain fuel next σ).2 = (d.drain fuel next σ).2 := by
  induction fuel generalizing next σ with
  | zero => exact ⟨rfl, rfl⟩
  | succ fuel ih =>
    cases hlabel : σ.order[next]? with
    | none =>
      rw [drain_of_none hlabel, drain_of_none hlabel]
      exact ⟨rfl, rfl⟩
    | some label =>
      obtain ⟨hnote, hstate⟩ := h label (next + 1) σ
      obtain ⟨hrest, hend⟩ := ih (next + 1) (d.note label (next + 1) σ).2
      rw [drain_of_some hlabel, drain_of_some hlabel]
      dsimp only
      rw [hstate]
      exact ⟨by rw [List.map_cons, List.map_cons, hnote, hrest], hend⟩

theorem notes_map_eq (hlabels : e.footnotes.map Prod.fst = d.footnotes.map Prod.fst)
    (hbound : e.bound = d.bound) (σ : Numbering) :
    (e.notes σ).1.map f = (d.notes σ).1.map g ∧ (e.notes σ).2 = (d.notes σ).2 := by
  obtain ⟨hcited, hstate⟩ := drain_map_eq h e.bound 0 σ
  have hlength := congrArg List.length hcited
  rw [List.length_map, List.length_map] at hlength
  obtain ⟨hothers, hend⟩ := drain_map_eq h e.bound (d.drain e.bound 0 σ).1.length
    ((e.footnotes.map Prod.fst).foldl Numbering.assign (d.drain e.bound 0 σ).2)
  rw [notes_run, notes_run]
  dsimp only
  rw [hstate, hlength, ← hlabels, ← hbound]
  exact ⟨by rw [List.map_append, List.map_append, hcited, hothers], hend⟩

end Lockstep

variable {e : Endnotes} (he : e.overrides.namesTags = true)

include he

/-- The notes under overrides: those without them, with the tags of their items replaced. -/
theorem notes_eq_map_retag (σ : Numbering) :
    (e.notes σ).1 = (Endnotes.notes { e with overrides := ∅ } σ).1.map
      (retag (e.overrides.tag? .footnote)) := by
  have hnote (label : String) (index : Nat) (σ : Numbering) :
      id (e.note label index σ).1 = (Endnotes.note { e with overrides := ∅ } label index σ).1.retag
        (e.overrides.tag? .footnote) := Single.element_eq_retag he _ _
  have hnotes := (notes_map_eq (fun label index σ => ⟨hnote label index σ, rfl⟩) rfl rfl σ).1
  rwa [List.map_id] at hnotes

/-- The endnotes section under overrides: the one without them, with the tags of the section and
its items replaced. -/
theorem render_eq_taggedSection (σ : Numbering) :
    (e.render σ).1 = Render.taggedSection e.overrides.tag?
      (Endnotes.notes { e with overrides := ∅ } σ).1 := by
  rw [render_fst_of_notes, notes_eq_map_retag he, Render.taggedSection,
    Single.element_eq_retag he, Single.element, Overrides.build, Overrides.pick_empty]
  dsimp only
  rw [List.isEmpty_map]
  rfl

end Endnotes

namespace Render

open Html

variable {ov : Overrides} (hov : ov.namesTags = true) {n : Node}

include hov

theorem content_eq (tight : Option Bool) : n.content ov tight = n.content ∅ tight := by
  have hunwraps (kind : Kind) : ov.unwraps kind tight = Overrides.unwraps ∅ kind tight := by
    rw [Overrides.unwraps, Overrides.unwraps, Overrides.hasComponent_eq_false hov,
      Overrides.hasComponent_eq_false Overrides.namesTags_empty]
  cases n with
  | container k =>
    cases k with
    | listItem => exact congrArg (Node.itemContent _) (hunwraps _)
    | _ => rfl
  | taskListItem => exact congrArg (Node.itemContent _) (hunwraps _)
  | link k => cases k <;> rfl
  | _ => rfl

/-- **The rendering of a node under overrides** that only name tags: the one without overrides in
which each node has the tag that the overrides name for its kind, if they name one. -/
theorem node_eq_tagged (links : Links) (key : Option String) (tight : Option Bool) :
    node ⟨ov, links⟩ key tight n = tagged ov.tag? links key tight n := by
  induction n using Node.induction_rendered generalizing links key tight with
  | content n hn ih =>
    funext σ
    rw [node_run hn, tagged_run hn]
    dsimp only
    rw [content_eq hov, output_eq_retag hov,
      each_eq_inOrder fun m hm key => ih ∅ tight m hm links key n.tightness]
  | document kids attrs refs auto notes ihKids ihNotes =>
    funext σ
    have hcontent : each ⟨ov, ⟨refs, auto⟩⟩ none 0 kids =
        inOrder (fun key m => tagged ov.tag? ⟨refs, auto⟩ key none m) 0 kids :=
      each_eq_inOrder (fun m hm key => ihKids m hm ⟨refs, auto⟩ key none) 0
    have hbodies : ∀ notes' ⊆ notes, bodies ⟨ov, ⟨refs, auto⟩⟩ notes' = notes'.map fun e =>
        (e.1, present <$>
          inOrder (fun key m => tagged ov.tag? ⟨refs, auto⟩ key none m) 0 e.2.children) := by
      intro notes' hsub
      induction notes' with
      | nil => rw [bodies, List.map_nil]
      | cons e rest ih =>
        obtain ⟨label, own, body, noteAttrs⟩ := e
        have hbody : each ⟨ov, ⟨refs, auto⟩⟩ none 0 body =
            inOrder (fun key m => tagged ov.tag? ⟨refs, auto⟩ key none m) 0 body :=
          each_eq_inOrder (fun m hm key =>
            ihNotes _ (hsub List.mem_cons_self) m hm ⟨refs, auto⟩ key none) 0
        rw [bodies, ih fun e he => hsub (List.mem_cons_of_mem _ he), hbody, List.map_cons]
    have hendnotes : { endnotesOf ov kids attrs refs auto notes with overrides := ∅ } =
        taggedEndnotes ov.tag? kids attrs refs auto notes := by
      rw [endnotesOf, hbodies notes (List.Subset.refl _)]
      rfl
    have he : (endnotesOf ov kids attrs refs auto notes).overrides.namesTags = true := hov
    rw [node_doc_run, tagged_doc_run, hcontent]
    dsimp only
    rw [Endnotes.render_eq_taggedSection he, hendnotes, Single.group_eq_retag hov rfl,
      Overrides.tag?_eq_none hov rfl, retag_none, Single.group, Overrides.build,
      Overrides.pick_empty]
    rfl

end Render

end DocMarkup
