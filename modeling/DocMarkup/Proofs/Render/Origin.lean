import DocMarkup.Proofs.RawHtml.Safety
import DocMarkup.Proofs.Render.DocTree
import DocMarkup.Proofs.Render.EndnoteSection

/-!
# Where the properties of elements come from

With overrides that only name tags, the properties of each element in the rendering of a tree are
those of a node that is rendered for the tree, those of an element of raw HTML, or some of the few
that are made without a node. So what holds of the properties of these holds of all elements, and
the traversal of the tree is done here once.

## Main definitions

* `Overrides.onlyTags` : overrides that only name tags.
* `Render.Visits` : the nodes that are rendered for a tree, each with the references it finds.
* `Node.kindProps`, `Node.ownProps` : the properties that the kind of a node sets, without and with
  the attributes of the reference that a link takes its target from.
* `Render.Made` : properties that are made without a node.
* `Render.Origin` : where the properties of an element come from.

## Main results

* `Render.exists_isBuilt_output` : the output of a node, made of what is rendered inside it.
* `Render.allOrigin_node` : all elements of a rendering have an origin.
-/

namespace DocMarkup

open Html (AllElements)

/-- Whether all overrides only name tags. -/
def Overrides.onlyTags (ov : Overrides) : Bool := ov.entries.all fun e => !e.2.isComponent

namespace Node

/-- The properties that the kind of a node sets on the element of the node. -/
def kindProps (links : Links) (before : Numbering) : Node → Props
  | cell _ align _ _ => Single.alignment align
  | footnoteReference label _ => Single.referenceProps (before.anchor label)
  | link .link destination reference _ _ =>
    Single.optional ∅ "href" (links.target? destination reference)
  | link .image destination reference kids _ =>
    let alt := if (plainText kids).isEmpty then none else some (plainText kids)
    Single.optional (Single.optional ∅ "alt" alt) "src" (links.target? destination reference)
  | list .task _ _ _ _ => Single.single "className" "task-list"
  | orderedList _ style start _ _ =>
    Single.optional (Single.startNumber start) "type" (numberType? style)
  | literal .inlineMath _ _ => Single.single "className" "math inline"
  | literal .displayMath _ _ => Single.single "className" "math display"
  | literal .url text _ => Single.single "href" text
  | literal .email text _ => Single.single "href" ("mailto:" ++ text)
  | _ => ∅

/-- The reference that a link or an image takes its target from. -/
def source? (links : Links) : Node → Option Reference
  | link _ destination reference _ _ => links.source? destination reference
  | _ => none

/-- The properties that the attributes of a node go over: those that its kind sets, with the
attributes of the reference that it takes its target from. -/
def ownProps (links : Links) (before : Numbering) (n : Node) : Props :=
  Single.withSource (n.kindProps links before) (n.source? links)

end Node

namespace Render

/-- Rendering a tree comes to a node. `links` are the references of the innermost document around
the node, and `tight` is the tightness of the list around it. -/
inductive Visits (ov : Overrides) (root : Node) : Links → Option Bool → Node → Prop where
  | root : Visits ov root {} none root
  | content {links : Links} {tight : Option Bool} {n m : Node} (h : Visits ov root links tight n)
      (hn : n.isDoc = false) (hm : m ∈ n.content ov tight) : Visits ov root links n.tightness m
  | document {links : Links} {tight : Option Bool} {kids : List Node} {attrs : Attributes}
      {refs auto : References} {notes : List (String × Footnote)} {m : Node}
      (h : Visits ov root links tight (.doc kids attrs refs auto notes)) (hm : m ∈ kids) :
      Visits ov root ⟨refs, auto⟩ none m
  | note {links : Links} {tight : Option Bool} {kids : List Node} {attrs : Attributes}
      {refs auto : References} {notes : List (String × Footnote)} {label : String} {f : Footnote}
      {m : Node} (h : Visits ov root links tight (.doc kids attrs refs auto notes))
      (hf : notes.lookup label = some f) (hm : m ∈ f.children) :
      Visits ov root ⟨refs, auto⟩ none m

/-- The properties of the box of a task. -/
def checkboxProps (state : Checkbox) : Props :=
  let type := Single.single "type" "checkbox"
  let props := match state with
    | .checked => type.insert "checked" (.flag true)
    | .unchecked => type
  props.insert "disabled" (.flag true)

/-- Properties that are made without a node: those of a part of a table or of the endnotes section,
of the box of a task, of code in a language, and of the link from a note back to the text. -/
inductive Made : Props → Prop where
  | empty : Made ∅
  | checkbox (state : Checkbox) : Made (checkboxProps state)
  | language (lang : Option String) : Made (Single.languageClass lang)
  | backlink (target : String) :
      Made ((Single.single "href" ("#" ++ target)).insert "role" (.text "doc-backlink"))
  | endnotes : Made (Single.single "role" "doc-endnotes")

/-- Where the properties of an element in the rendering of a tree come from: they are made without
a node or sanitized, or the element is the output of a node that is rendered for the tree or the
note of a footnote in a document. What is inside an element may differ from the output of the node:
the link back to the text may have come in. -/
inductive Origin (ov : Overrides) (root : Node) : String → Option String → Props → Prop where
  | made {tag : String} {key : Option String} {props : Props} (h : Made props) :
      Origin ov root tag key props
  | raw (tag : String) (key : Option String) (attrs : List (String × String)) :
      Origin ov root tag key (RawHtml.sanitizeAttributes attrs)
  | node {links : Links} {tight : Option Bool} {n : Node} (hn : Visits ov root links tight n)
      {key : Option String} {σ : Numbering} {rendered : List (Option Html)} {tag : String}
      {kids : List Html} (hout : output ⟨ov, links⟩ key tight σ rendered n =
        some (.element tag key (n.props (n.ownProps links σ)) kids)) :
      Origin ov root tag key (n.props (n.ownProps links σ))
  | document {links : Links} {tight : Option Bool} {n : Node} (hn : Visits ov root links tight n)
      (hdoc : n.isDoc = true) (tag : String) (key : Option String) :
      Origin ov root tag key (n.props ∅)
  | note {links : Links} {tight : Option Bool} {kids : List Node} {attrs : Attributes}
      {refs auto : References} {notes : List (String × Footnote)} {label : String} {f : Footnote}
      (h : Visits ov root links tight (.doc kids attrs refs auto notes))
      (hf : f = (endnotesOf ov kids attrs refs auto notes).footnote label) (index : Nat)
      (tag : String) (key : Option String) :
      Origin ov root tag key ((Node.footnote f).props (Single.single "id" (Numbering.noteId index)))

/-- All elements in outputs have an origin. -/
abbrev AllOrigin (ov : Overrides) (root : Node) (hs : List Html) : Prop :=
  AllElements (fun tag key props _ => Origin ov root tag key props) hs

/-- An output that is a bare text, or its content, side by side or in an element with the
properties. -/
inductive IsBuilt (key : Option String) (props : Props) (kids : List Html) : Html → Prop where
  | text (s : String) : IsBuilt key props kids (.text s)
  | group : IsBuilt key props kids (.fragment key kids)
  | element (tag : String) : IsBuilt key props kids (.element tag key props kids)

end Render

/-! ### Overrides -/

theorem Overrides.mem_of_pick {ov : Overrides} {k : Kind} {o : Override}
    (h : ov.pick k = some o) : ∃ l, (l, o) ∈ ov.entries := by
  have hget {l : Kind} (h : ov.get? l = some o) : (l, o) ∈ ov.entries :=
    OrderedMap.mem_of_lookup_eq_some h
  rcases Option.or_eq_some_iff.1 h with h | ⟨-, h⟩
  · exact ⟨k, hget h⟩
  · obtain ⟨l, -, h⟩ := Option.bind_eq_some_iff.1 h
    exact ⟨l, hget h⟩

/-- The override that serves a kind where all overrides only name tags. -/
theorem Overrides.pick_of_onlyTags {ov : Overrides} (hov : ov.onlyTags = true) (k : Kind) :
    ov.pick k = none ∨ ∃ name, ov.pick k = some (.tag name) := by
  cases h : ov.pick k with
  | none => exact Or.inl rfl
  | some o =>
    obtain ⟨l, hmem⟩ := mem_of_pick h
    have ho : o.isComponent = false := by
      simpa using List.all_eq_true.1 hov _ hmem
    cases o with
    | tag name => exact Or.inr ⟨name, rfl⟩
    | component build => cases ho

/-- Overrides that only name tags put at most an element in the place of what is built by
default. -/
theorem Overrides.build_cases {ov : Overrides} (hov : ov.onlyTags = true)
    (byDefault : Request → Html) (r : Request) :
    ov.build byDefault r = byDefault r ∨ ∃ tag, ov.build byDefault r = r.element tag := by
  rw [build]
  rcases pick_of_onlyTags hov r.kind with h | ⟨name, h⟩
  · rw [h]
    exact Or.inl rfl
  · rw [h]
    exact Or.inr ⟨name, rfl⟩

namespace Render

variable {ov : Overrides} {root : Node} {links : Links} {tight : Option Bool} {n : Node}
  {key : Option String} {tag : String} {props own : Props} {kids : List Html}
  {σ : Numbering} {rendered : List (Option Html)}

/-! ### The output of a node -/

/-- What is inside an output has an origin, and so has the output if its properties have one. -/
theorem IsBuilt.allOrigin {o : Html} (h : IsBuilt key props kids o)
    (hprops : ∀ tag, o = .element tag key props kids → Origin ov root tag key props)
    (hkids : AllOrigin ov root kids) : AllOrigin ov root [o] := by
  cases h with
  | text s => exact Html.allElements_text
  | group => exact Html.allElements_fragment.2 hkids
  | element tag => exact Html.allElements_element.2 ⟨hprops tag rfl, hkids⟩

theorem isBuilt_some {o' : Html} (h : IsBuilt key props kids o') :
    ∀ o ∈ some o', IsBuilt key props kids o := fun _ ho => Option.some.inj ho ▸ h

theorem allOrigin_made (h : Made props) (hkids : AllOrigin ov root kids) :
    AllOrigin ov root [.element tag key props kids] :=
  Html.allElements_element.2 ⟨.made h, hkids⟩

theorem allOrigin_marked (k : ContainerKind) (hkids : AllOrigin ov root kids) :
    AllOrigin ov root (Single.marked k kids) := by
  unfold Single.marked
  split
  · exact Html.allElements_cons.2 ⟨Html.allElements_text,
      Html.allElements_append.2 ⟨hkids, Html.allElements_text⟩⟩
  · exact hkids

theorem allOrigin_checkbox (checkbox : Option Checkbox) :
    AllOrigin ov root (checkbox.map Html.checkbox).toList := by
  cases checkbox with
  | none => exact Html.allElements_nil
  | some state => exact allOrigin_made (.checkbox state) Html.allElements_nil

theorem allOrigin_sanitize (source key : String) :
    AllOrigin ov root (RawHtml.sanitize source key) :=
  RawHtml.allElements_sanitizeNodes (P := fun _ _ => True)
    (fun tag attrs key _ _ _ => .raw tag key attrs) key 0 _ fun _ _ _ _ => trivial

section Built

variable (hov : ov.onlyTags = true)

include hov

theorem isBuilt_build {r : Request} {byDefault : Request → Html}
    (h : IsBuilt r.key r.props r.children (byDefault r)) :
    IsBuilt r.key r.props r.children (ov.build byDefault r) := by
  rcases Overrides.build_cases hov byDefault r with hb | ⟨tag, hb⟩
  · rwa [hb]
  · rw [hb]
    exact .element tag

theorem isBuilt_element (tag : String) (kind : Kind) (inputs : Inputs) :
    IsBuilt key (n.props own) kids
      (Single.element ov tag (Single.request kind n key own inputs kids)) :=
  isBuilt_build (r := Single.request kind n key own inputs kids) hov (.element tag)

theorem isBuilt_group (kind : Kind) (inputs : Inputs) :
    IsBuilt key (n.props own) kids
      (Single.group ov (Single.request kind n key own inputs kids)) :=
  isBuilt_build (r := Single.request kind n key own inputs kids) hov .group

theorem isBuilt_bareText (kind : Kind) (text : String) (inputs : Inputs) :
    IsBuilt key (n.props ∅) [.text text] (Single.bareText ov kind n key text inputs) :=
  isBuilt_build (r := Single.request kind n key ∅ inputs [.text text]) hov (.text text)

theorem isBuilt_container {k : ContainerKind} :
    ∀ o ∈ Single.container ov k n key kids, IsBuilt key (n.props ∅) (Single.marked k kids) o := by
  unfold Single.container
  dsimp only
  split
  · nofun
  · split
    · exact isBuilt_some (isBuilt_element hov _ _ _)
    · exact isBuilt_some (isBuilt_group hov _ _)

theorem isBuilt_leaf (k : LeafKind) :
    ∃ kids, AllOrigin ov root kids ∧ IsBuilt key (n.props ∅) kids (Single.leaf ov k n key) := by
  cases k with
  | thematicBreak | hardBreak | hardbreak =>
    exact ⟨[], Html.allElements_nil, isBuilt_element hov _ _ _⟩
  | softBreak | softbreak | nonBreakingSpace =>
    exact ⟨_, Html.allElements_text, isBuilt_bareText hov _ _ _⟩

/-- **The output of a node** is a bare text, or some content, side by side or in an element with
the properties of the node. What is in the content has an origin if what is rendered inside the
node has. -/
theorem exists_isBuilt_output (hdoc : n.isDoc = false)
    (hr : AllOrigin ov root (present rendered)) :
    ∃ kids, AllOrigin ov root kids ∧ ∀ o ∈ output ⟨ov, links⟩ key tight σ rendered n,
      IsBuilt key (n.props (n.ownProps links σ)) kids o := by
  have htext (s : String) : AllOrigin ov root [.text s] := Html.allElements_text
  cases n with
  | doc => cases hdoc
  | container k kids attrs auto =>
    by_cases htable : k = .table
    · subst htable
      refine ⟨_, ?_, isBuilt_container (k := .table) hov⟩
      refine allOrigin_marked .table (TableParts.allElements_toList _ (fun _ _ => .made .empty)
        fun c hc => ?_)
      exact allElements_present.1 hr c.2 (List.of_mem_zip hc).2
    · by_cases hitem : k = .listItem
      · subst hitem
        refine ⟨_, Html.allElements_append.2 ⟨?_, hr⟩, isBuilt_some (isBuilt_element hov _ _ _)⟩
        split <;> exact Html.allElements_nil
      · rw [output_container htable hitem]
        exact ⟨_, allOrigin_marked k hr, isBuilt_container hov⟩
  | heading | row | cell => exact ⟨_, hr, isBuilt_some (isBuilt_element hov _ _ _)⟩
  | footnoteReference label =>
    exact ⟨_, allOrigin_made .empty (htext _), isBuilt_some (isBuilt_element hov _ _ _)⟩
  | footnote note => exact ⟨_, hr, isBuilt_some (isBuilt_element hov _ _ _)⟩
  | link k =>
    cases k with
    | link => exact ⟨_, hr, isBuilt_some (isBuilt_element hov _ _ _)⟩
    | image => exact ⟨_, Html.allElements_nil, isBuilt_some (isBuilt_element hov _ _ _)⟩
  | list k => cases k <;> exact ⟨_, hr, isBuilt_some (isBuilt_element hov _ _ _)⟩
  | orderedList => exact ⟨_, hr, isBuilt_some (isBuilt_element hov _ _ _)⟩
  | taskListItem checkbox =>
    refine ⟨_, Html.allElements_append.2 ⟨?_, hr⟩, isBuilt_some (isBuilt_element hov _ _ _)⟩
    split
    · exact Html.allElements_nil
    · exact allOrigin_checkbox checkbox
  | smartPunctuation | symb => exact ⟨_, htext _, isBuilt_some (isBuilt_bareText hov _ _ _)⟩
  | literal k =>
    cases k with
    | str => exact ⟨_, htext _, isBuilt_some (isBuilt_bareText hov _ _ _)⟩
    | _ => exact ⟨_, htext _, isBuilt_some (isBuilt_element hov _ _ _)⟩
  | codeBlock lang text =>
    exact ⟨_, allOrigin_made (.language lang) (htext text),
      isBuilt_some (isBuilt_element hov _ _ _)⟩
  | raw k format text =>
    change ∃ kids, _ ∧ ∀ o ∈ Single.raw ov k _ key format text, _
    unfold Single.raw
    split
    · exact ⟨[], Html.allElements_nil, nofun⟩
    · refine ⟨_, ?_, isBuilt_some (isBuilt_group hov _ _)⟩
      split
      · exact allOrigin_sanitize text _
      · exact htext text
  | leaf k =>
    obtain ⟨kids, hkids, hbuilt⟩ := isBuilt_leaf hov k
    exact ⟨kids, hkids, isBuilt_some hbuilt⟩
  | unknown => exact ⟨[], Html.allElements_nil, nofun⟩

end Built

/-- The output of a node has an origin throughout if what is rendered inside the node has. -/
theorem allOrigin_output (hov : ov.onlyTags = true) (hn : Visits ov root links tight n)
    (hdoc : n.isDoc = false) (hr : AllOrigin ov root (present rendered)) :
    AllOrigin ov root (output ⟨ov, links⟩ key tight σ rendered n).toList := by
  obtain ⟨kids, hkids, hbuilt⟩ : ∃ kids, AllOrigin ov root kids ∧
      ∀ o ∈ output ⟨ov, links⟩ key tight σ rendered n,
        IsBuilt key (n.props (n.ownProps links σ)) kids o := exists_isBuilt_output hov hdoc hr
  cases hout : output ⟨ov, links⟩ key tight σ rendered n with
  | none => exact Html.allElements_nil
  | some o =>
    refine (hbuilt o hout).allOrigin (fun tag ho => ?_) hkids
    rw [ho] at hout
    exact .node hn hout

theorem allOrigin_each {s : Setting} {ns : List Node}
    (h : ∀ m ∈ ns, ∀ key σ, AllOrigin ov root (node s key tight m σ).1.toList) (i : Nat)
    (σ : Numbering) : AllOrigin ov root (present (each s tight i ns σ).1) := by
  rw [AllOrigin, allElements_present]
  induction ns generalizing i σ with
  | nil =>
    rw [each_nil]
    exact fun o ho => absurd ho List.not_mem_nil
  | cons n ns ih =>
    rw [each_cons, List.forall_mem_cons]
    exact ⟨h n List.mem_cons_self _ _,
      ih (fun m hm => h m (List.mem_cons_of_mem n hm)) (i + 1) _⟩

/-! ### Endnotes -/

section Endnotes

variable {children : List Node} {attrs : Attributes} {refs auto : References}
  {notes : List (String × Footnote)} (hov : ov.onlyTags = true)
  (hn : Visits ov root links tight (.doc children attrs refs auto notes))
  (hbodies : ∀ label f, notes.lookup label = some f → ∀ m ∈ f.children, ∀ key σ,
    AllOrigin ov root (node ⟨ov, ⟨refs, auto⟩⟩ key none m σ).1.toList)

include hov hn hbodies

/-- All elements of the note of a label have an origin, whether the footnote is defined or not. -/
theorem allOrigin_note (label : String) (index : Nat) (σ : Numbering) :
    AllOrigin ov root [((endnotesOf ov children attrs refs auto notes).note label index σ).1] := by
  have hbody : AllOrigin ov root
      (present (each ⟨ov, ⟨refs, auto⟩⟩ none 0 (bodyOf notes label) σ).1) := by
    refine allOrigin_each (fun m hm => ?_) 0 σ
    rw [bodyOf] at hm
    cases hlookup : notes.lookup label with
    | none => simp [hlookup] at hm
    | some f => exact hbodies label f hlookup m (by simpa [hlookup] using hm)
  rw [note_endnotesOf_run]
  refine (isBuilt_element hov _ _ _).allOrigin (fun tag _ => .note hn rfl index tag _) ?_
  exact Endnotes.allElements_appendBacklink hbody
    (allOrigin_made (.backlink _) Html.allElements_text)

theorem allOrigin_drain (fuel next : Nat) (σ : Numbering) :
    AllOrigin ov root ((endnotesOf ov children attrs refs auto notes).drain fuel next σ).1 := by
  induction fuel generalizing next σ with
  | zero => exact Html.allElements_nil
  | succ fuel ih =>
    cases h : σ.order[next]? with
    | none =>
      rw [Endnotes.drain_of_none h]
      exact Html.allElements_nil
    | some label =>
      rw [Endnotes.drain_of_some h]
      exact Html.allElements_cons.2 ⟨allOrigin_note hov hn hbodies label _ σ, ih _ _⟩

theorem allOrigin_endnotes (σ : Numbering) :
    AllOrigin ov root ((endnotesOf ov children attrs refs auto notes).render σ).1.toList := by
  have hnotes : AllOrigin ov root ((endnotesOf ov children attrs refs auto notes).notes σ).1 :=
    Html.allElements_append.2
      ⟨allOrigin_drain hov hn hbodies _ _ _, allOrigin_drain hov hn hbodies _ _ _⟩
  rw [Endnotes.render_fst_of_notes]
  split
  · exact Html.allElements_nil
  · have hitems : AllOrigin ov root [.element "hr" (some "hr") ∅ [],
        .element "ol" (some "ol") ∅ ((endnotesOf ov children attrs refs auto notes).notes σ).1] :=
      Html.allElements_cons.2 ⟨allOrigin_made .empty Html.allElements_nil,
        allOrigin_made .empty hnotes⟩
    refine (isBuilt_build hov (.element "section")).allOrigin (fun tag _ => ?_) hitems
    exact .made .endnotes

end Endnotes

/-! ### Nodes -/

/-- **All elements of the rendering of a node have an origin**, wherever in the tree the node is. -/
theorem allOrigin_node (hov : ov.onlyTags = true) (n : Node) (hn : Visits ov root links tight n)
    (key : Option String) (σ : Numbering) :
    AllOrigin ov root (node ⟨ov, links⟩ key tight n σ).1.toList := by
  induction n using Node.induction_rendered generalizing links tight key σ with
  | content n hdoc ih =>
    -- `content` holds what an item in a tight list shows in place of its paragraph.
    rw [node_run hdoc]
    exact allOrigin_output hov hn hdoc
      (allOrigin_each (fun m hm => ih ov tight m hm (hn.content hdoc hm)) 0 _)
  | document kids attrs refs auto notes ihKids ihNotes =>
    have hcontent (σ : Numbering) :
        AllOrigin ov root (present (each ⟨ov, ⟨refs, auto⟩⟩ none 0 kids σ).1) :=
      allOrigin_each (fun m hm => ihKids m hm (hn.document hm)) 0 σ
    have hendnotes := allOrigin_endnotes hov hn fun label f hf m hm =>
      ihNotes _ (OrderedMap.mem_of_lookup_eq_some hf) m hm (hn.note hf hm)
    rw [node_doc_run]
    exact (isBuilt_group hov _ _).allOrigin (fun tag _ => .document hn rfl tag key)
      (Html.allElements_append.2 ⟨hcontent _, hendnotes _⟩)

end Render

end DocMarkup
