import DocMarkup.Proofs.Markup.Landmark
import DocMarkup.Proofs.Render.Properties
import DocMarkup.Proofs.Render.TableOrder
import DocMarkup.Proofs.Render.Walk

/-!
# What is found in the output of a node

Without overrides, the only node whose output is an element with an identifier or a role is a
reference to a footnote. So a reading that looks for such a property finds in the output of a node
what it finds in what is rendered inside the node, and the reference that the node may be. This
holds of nodes that are no raw HTML and have no such attribute.

## Main definitions

* `Node.avoids` : whether a node itself has no attribute with a name in a set.
* `Node.isPlain` : whether a node itself has nothing that could be taken for a reference.
* `Landmark.ofNumber` : the landmark of a reference to the footnote with a number.

## Main results

* `Render.collect_output`, `Render.collect_output_table` : what is found in an output.
* `Single.landmarks_footnoteReference` : the landmark of a reference.
-/

namespace DocMarkup

namespace Node

/-- Whether the node is raw content in HTML. -/
def isRawHtml : Node → Bool
  | raw _ format _ _ => format = "html"
  | _ => false

/-- Whether the node itself is no document and no raw HTML and has no attribute with a name in the
set. -/
def avoids (S : String → Bool) (n : Node) : Bool :=
  !n.isDoc && !n.isRawHtml && (n.attributes?.getD ∅).avoids S &&
    (n.autoAttributes?.getD ∅).avoids S

/-- Whether the node itself has nothing in its output that could be taken for a reference or a
note: it is no document and no raw HTML, and its attributes leave the properties alone that tell
references and notes from other elements. -/
def isPlain (n : Node) : Bool :=
  !n.isDoc && !n.isRawHtml && (n.attributes?.getD ∅).isPlain && (n.autoAttributes?.getD ∅).isPlain

section Avoids

variable {n : Node} {S : String → Bool}

theorem isDoc_of_avoids (h : n.avoids S = true) : n.isDoc = false := by
  simp only [avoids, Bool.and_eq_true, Bool.not_eq_true'] at h
  exact h.1.1.1

theorem isRawHtml_of_avoids (h : n.avoids S = true) : n.isRawHtml = false := by
  simp only [avoids, Bool.and_eq_true, Bool.not_eq_true'] at h
  exact h.1.1.2

theorem get?_props_of_avoids (h : n.avoids S = true) (hclass : S "className" = false)
    {name : String} (hname : S name = true) (own : Props) :
    (n.props own).get? name = own.get? name := by
  simp only [avoids, Bool.and_eq_true] at h
  exact get?_props hclass hname h.1.2 h.2 own

theorem avoids_of_isPlain (h : n.isPlain = true)
    (hS : ∀ name, S name = true → name ∈ anchorNames) : n.avoids S = true := by
  simp only [isPlain, avoids, Bool.and_eq_true] at h ⊢
  exact ⟨⟨h.1.1, Attributes.avoids_of_isPlain h.1.2 hS⟩, Attributes.avoids_of_isPlain h.2 hS⟩

theorem isDoc_of_isPlain (h : n.isPlain = true) : n.isDoc = false :=
  isDoc_of_avoids (S := fun _ => false) (avoids_of_isPlain h nofun)

theorem text?_props_of_isPlain (h : n.isPlain = true) {name : String} (hname : name ∈ anchorNames)
    (own : Props) : (n.props own).text? name = own.text? name := by
  have havoids : n.avoids anchorNames.contains = true := avoids_of_isPlain h fun name hname => by
    simpa using hname
  rw [Props.text?, Props.text?, get?_props_of_avoids havoids (by decide)
    (by simpa using hname)]

end Avoids

end Node

/-- The mark of a reference to the footnote with a number. -/
def Mark.ofNumber (index : Nat) : Mark := ⟨Decimal.text index, "#" ++ Numbering.noteId index⟩

/-- The landmark of a reference to the footnote with a number. -/
def Landmark.ofNumber (index : Nat) : Landmark := ⟨"doc-noteref", some (.ofNumber index)⟩

/-- Whether no reference has an attribute with a name in the set. -/
def Links.Avoids (S : String → Bool) (links : Links) : Prop :=
  ∀ label r, links.lookup? label = some r → r.attributes.avoids S = true

/-- Whether no reference has an attribute that links could be taken for references to footnotes
by. -/
def Links.IsPlain (links : Links) : Prop :=
  ∀ label r, links.lookup? label = some r → r.attributes.isPlain = true

theorem Links.IsPlain.avoids {links : Links} (h : links.IsPlain) {S : String → Bool}
    (hS : ∀ name, S name = true → name ∈ anchorNames) : links.Avoids S := fun label r hr =>
  Attributes.avoids_of_isPlain (h label r hr) hS

theorem Overrides.pick_empty (k : Kind) : Overrides.pick ∅ k = none := by
  rw [pick]
  cases k.alias? <;> rfl

namespace Single

open Html

/-! ### The tags and the properties that kinds set -/

theorem mem_defaultTags_of_tag? {k : ContainerKind} {tag : String} (h : k.tag? = some tag) :
    tag ∈ defaultTags := by
  cases k <;> cases h <;> decide

theorem headingTag_mem_defaultTags (level : UInt32) :
    "h" ++ Decimal.text (headingLevel level) ∈ defaultTags := by
  have hall : ∀ n < 7, 1 ≤ n → "h" ++ Decimal.text n ∈ defaultTags := by decide +kernel
  exact hall _ (by unfold headingLevel; omega) (by unfold headingLevel; omega)

section Lacks

variable {S : String → Bool} (hS : IsForeign S)

include hS

theorem lacks_single (name : String) (hname : name ∈ kindProperties) (value : String) :
    (single name value).Lacks S := Props.lacks_empty.insert (hS name hname) _

theorem lacks_alignment (align : Alignment) : (alignment align).Lacks S := by
  unfold alignment
  split
  · exact Props.lacks_empty.insert (hS _ (by decide)) _
  · exact Props.lacks_empty

theorem lacks_optional {p : Props} (h : p.Lacks S) (name : String)
    (hname : name ∈ kindProperties) (value : Option String) : (optional p name value).Lacks S := by
  cases value with
  | none => exact h
  | some v => exact h.insert (hS name hname) _

theorem lacks_startNumber (start : Option UInt64) : (startNumber start).Lacks S := by
  unfold startNumber
  split
  · split
    · exact Props.lacks_empty
    · exact Props.lacks_empty.insert (hS _ (by decide)) _
  · exact Props.lacks_empty

theorem lacks_languageClass (lang : Option String) : (languageClass lang).Lacks S := by
  unfold languageClass
  split
  · split
    · exact Props.lacks_empty
    · exact lacks_single hS _ (by decide) _
  · exact Props.lacks_empty

theorem lacks_withSource {links : Links} (hl : links.Avoids S) {p : Props} (h : p.Lacks S)
    (destination reference : Option String) :
    (withSource p (links.source? destination reference)).Lacks S := by
  cases hs : links.source? destination reference with
  | none => exact h
  | some r =>
    cases destination with
    | some d => cases hs
    | none =>
      obtain ⟨label, -, hlookup⟩ := Option.bind_eq_some_iff.1 hs
      intro name hname
      exact (Attributes.get?_of_avoids (hS _ (by decide)) hname
        (hl label r hlookup) p).trans (h name hname)

end Lacks

/-! ### Single elements -/

theorem raw_of_not_html {format : String} (h : format ≠ "html") (k : RawKind) (n : Node)
    (key : Option String) (text : String) : raw ∅ k n key format text = none := by
  rw [raw, Overrides.pick_empty]
  simp [h]

section Collect

variable {α : Type} {f : Html → Option α} {S : String → Bool} (hf : Overlooks f S)

include hf

theorem collect_group (r : Request) : collect f [group ∅ r] = collect f r.children := by
  rw [group, Overrides.build, Overrides.pick_empty]
  exact hf.collect_fragment r.key r.children

theorem collect_bareText (kind : Kind) (n : Node) (key : Option String) (text : String)
    (inputs : Inputs) : collect f [bareText ∅ kind n key text inputs] = [] := by
  rw [bareText, Overrides.build, Overrides.pick_empty]
  exact hf.collect_text text

theorem collect_marked (k : ContainerKind) (children : List Html) :
    collect f (marked k children) = collect f children := by
  unfold marked
  split
  · rw [List.cons_append, collect_cons, collect_append, hf.collect_text, hf.collect_text,
      List.nil_append, List.append_nil]
  · rfl

variable (hS : IsForeign S) {n : Node} (hn : n.avoids S = true) (key : Option String)

include hS hn

/-- An element with properties in which the reading finds nothing. -/
theorem collect_request {own : Props} (h : own.Lacks S) {tag : String} (htag : tag ∈ defaultTags)
    (kind : Kind) (inputs : Inputs) (children : List Html) :
    collect f [element ∅ tag (request kind n key own inputs children)] = collect f children := by
  rw [element, Overrides.build, Overrides.pick_empty]
  refine hf.collect_element_of_lacks htag (fun name hname => ?_) key children
  exact (Node.get?_props_of_avoids hn (hS _ (by decide)) hname own).trans
    (h name hname)

theorem collect_container (k : ContainerKind) (children : List Html) :
    collect f (container ∅ k n key children).toList = collect f children := by
  unfold container
  dsimp only
  split
  · rename_i h
    have hnil : children = [] := by
      simp only [Bool.and_eq_true, List.isEmpty_iff] at h
      exact h.1.2
    rw [hnil]
    rfl
  · split
    · rename_i htag
      exact (collect_request hf hS hn key Props.lacks_empty (mem_defaultTags_of_tag? htag) _ _
        _).trans (collect_marked hf k children)
    · exact (collect_group hf _).trans (collect_marked hf k children)

theorem collect_literal (k : LiteralKind) (text : String) :
    collect f [literal ∅ k n key text] = [] := by
  cases k with
  | str => exact collect_bareText hf _ _ _ _ _
  | code | verbatim =>
    exact (collect_request hf hS hn key Props.lacks_empty (by decide) _ _ _).trans
      (hf.collect_text _)
  | inlineMath | displayMath =>
    rw [literal, math, collect_request hf hS hn key (lacks_single hS "className" (by decide) _)
      (by decide), hf.collect_text]
  | url | email =>
    rw [literal, autolink, collect_request hf hS hn key (lacks_single hS "href" (by decide) _)
      (by decide), hf.collect_text]

theorem collect_leaf (k : LeafKind) : collect f [leaf ∅ k n key] = [] := by
  cases k with
  | thematicBreak | hardBreak | hardbreak =>
    exact collect_request hf hS hn key Props.lacks_empty (by decide) _ _ _
  | softBreak | softbreak | nonBreakingSpace => exact collect_bareText hf _ _ _ _ _

theorem collect_codeBlock (lang : Option String) (text : String) :
    collect f [codeBlock ∅ n key lang text] = [] := by
  refine (collect_request hf hS hn key Props.lacks_empty (by decide) _ _ _).trans ?_
  rw [hf.collect_element_of_lacks (by decide) (lacks_languageClass hS lang), hf.collect_text]

theorem collect_item (kind : Kind) (tight : Option Bool) (checkbox : Option Checkbox)
    (content : List Html) :
    collect f [item ∅ kind n key tight checkbox content] = collect f content := by
  have hbox : collect f (checkbox.map Html.checkbox).toList = [] := by
    cases checkbox with
    | none => rfl
    | some state =>
      refine hf.collect_element_of_lacks (by decide) (Props.Lacks.insert ?_ (hS _ (by decide)) _)
        _ _
      have htype := lacks_single hS "type" (by decide) "checkbox"
      cases state with
      | checked => exact htype.insert (hS _ (by decide)) _
      | unchecked => exact htype
  have hcomponent : Overrides.hasComponent ∅ kind = false := by
    rw [Overrides.hasComponent, Overrides.pick_empty]
    rfl
  refine (collect_request hf hS hn key Props.lacks_empty (by decide) _ _ _).trans ?_
  rw [hcomponent, collect_append]
  exact congrArg (· ++ collect f content) hbox

omit hn in
theorem collect_footnote {note : Footnote} (hnote : (Node.footnote note).avoids S = true)
    {own : Props} (h : own.Lacks S) (index : Nat) (label : String) (content : List Html) :
    collect f [footnote ∅ note key own index label content] = collect f content :=
  collect_request hf hS hnote key h (by decide) _ _ content

end Collect

/-! ### References -/

/-- The properties that a reference sets. -/
def referenceProps (a : Anchor) : Props :=
  ((single "href" a.href).insert "id" (.text a.id)).insert "role" (.text "doc-noteref")

variable {n : Node} (key : Option String)

theorem footnoteReference_eq (label : String) (a : Anchor) :
    footnoteReference ∅ n key label a = .element "a" key (n.props (referenceProps a))
      [.element "sup" none ∅ [.text (Decimal.text a.index)]] := by
  rw [footnoteReference, element, Overrides.build, Overrides.pick_empty]
  rfl

/-- A reference has the properties that it sets, where no attribute of it has their names. -/
theorem property?_footnoteReference {S : String → Bool} (hn : n.avoids S = true)
    (hclass : S "className" = false) {name : String} (hname : S name = true) (label : String)
    (a : Anchor) :
    (footnoteReference ∅ n key label a).property? name = (referenceProps a).text? name := by
  rw [footnoteReference_eq]
  change Props.text? _ name = _
  rw [Props.text?, Node.get?_props_of_avoids hn hclass hname, Props.text?]

/-- Nothing is found in a reference but the reference itself. -/
theorem collect_footnoteReference {α : Type} {f : Html → Option α} {S : String → Bool}
    (hf : Overlooks f S) (label : String) (a : Anchor) :
    collect f [footnoteReference ∅ n key label a] =
      (f (footnoteReference ∅ n key label a)).toList := by
  rw [footnoteReference_eq, collect_element, hf.collect_element_of_lacks (by decide)
    Props.lacks_empty, hf.collect_text, List.append_nil]

/-- A reference is a link that shows its number. -/
theorem landmark?_footnoteReference (hn : n.isPlain = true) (label : String) (σ : Numbering) :
    landmark? (footnoteReference ∅ n key label (σ.anchor label)) =
      some (.ofNumber (σ.index label)) := by
  have hrole (kids : List Html) :
      role? (.element "a" key (n.props (referenceProps (σ.anchor label))) kids) =
        some "doc-noteref" := Node.text?_props_of_isPlain hn (by decide) _
  have hhref : (n.props (referenceProps (σ.anchor label))).text? "href" =
      some (σ.anchor label).href := Node.text?_props_of_isPlain hn (by decide) _
  rw [footnoteReference_eq, landmark?, hrole]
  change some (Landmark.mk _ (mark? _)) = _
  rw [mark?, if_pos ⟨rfl, rfl, rfl⟩, hhref]
  rfl

end Single

/-! ### Nodes -/

namespace Render

open Html Single

variable {α : Type} {f : Html → Option α} {S : String → Bool} (hf : Overlooks f S)
  (hS : IsForeign S) {links : Links} {n : Node} {key : Option String} {tight : Option Bool}
  {σ : Numbering}

theorem collect_present (rendered : List (Option Html)) :
    collect f (present rendered) = rendered.flatMap fun o => collect f o.toList := by
  induction rendered with
  | nil => rfl
  | cons o rendered ih => rw [present_cons, collect_append, ih, List.flatMap_cons]

include hf hS

/-- What is found in the output of a node that is no table: the reference that it is itself, and
what is found in what is rendered inside it. -/
theorem collect_output (hl : links.Avoids S) (hn : n.avoids S = true) (ht : n.isTable = false)
    {rendered : List (Option Html)} (hr : n.content ∅ tight = [] → rendered = []) :
    collect f (output ⟨∅, links⟩ key tight σ rendered n).toList =
      (n.ownLabels.flatMap fun label =>
        (f (footnoteReference ∅ n key label (σ.anchor label))).toList) ++
          collect f (present rendered) := by
  cases n with
  | doc => cases Node.isDoc_of_avoids hn
  | container k kids attrs auto =>
    by_cases hk : k = .listItem
    · subst hk
      exact collect_item hf hS hn key _ _ _ (present rendered)
    · have htable : k ≠ .table := by
        rintro rfl
        cases ht
      rw [output_container htable hk]
      exact collect_container hf hS hn key k (present rendered)
  | heading level =>
    exact collect_request hf hS hn key Props.lacks_empty (headingTag_mem_defaultTags level) _ _
      (present rendered)
  | row head =>
    exact collect_request hf hS hn key Props.lacks_empty (by decide) _ _ (present rendered)
  | cell head align =>
    have htag : (if head = true then "th" else "td") ∈ defaultTags := by cases head <;> decide
    exact collect_request hf hS hn key (lacks_alignment hS align) htag _ _ (present rendered)
  | footnoteReference label =>
    rw [hr rfl]
    change collect f [_] = [label].flatMap _ ++ []
    rw [collect_footnoteReference key hf, List.append_nil, List.flatMap_singleton]
  | footnote note =>
    exact collect_footnote hf hS key hn Props.lacks_empty _ _ (present rendered)
  | smartPunctuation =>
    rw [hr rfl]
    exact collect_bareText hf _ _ _ _ _
  | literal k text =>
    rw [hr rfl]
    exact collect_literal hf hS hn key k text
  | codeBlock lang text =>
    rw [hr rfl]
    exact collect_codeBlock hf hS hn key lang text
  | raw k format text attrs =>
    have hformat : format ≠ "html" := by
      simpa [Node.isRawHtml] using Node.isRawHtml_of_avoids hn
    rw [hr rfl, output, raw_of_not_html hformat]
    rfl
  | symb =>
    rw [hr rfl]
    exact collect_bareText hf _ _ _ _ _
  | link k destination reference kids attrs =>
    cases k with
    | link =>
      have hown := lacks_withSource hS hl (lacks_optional hS Props.lacks_empty "href" (by decide)
        (links.target? destination reference)) destination reference
      exact collect_request hf hS hn key hown (by decide) _ _ (present rendered)
    | image =>
      rw [hr rfl]
      have hown (alt : Option String) := lacks_withSource hS hl
        (lacks_optional hS (lacks_optional hS Props.lacks_empty "alt" (by decide) alt) "src"
          (by decide) (links.target? destination reference)) destination reference
      exact collect_request hf hS hn key (hown _) (by decide) _ _ []
  | list k =>
    cases k with
    | bullet =>
      exact collect_request hf hS hn key Props.lacks_empty (by decide) _ _ (present rendered)
    | task =>
      exact collect_request hf hS hn key (lacks_single hS "className" (by decide) _) (by decide)
        _ _ (present rendered)
  | orderedList isTight style start =>
    have hown := lacks_optional hS (lacks_startNumber hS start) "type" (by decide)
      (numberType? style)
    exact collect_request hf hS hn key hown (by decide) _ _ (present rendered)
  | taskListItem => exact collect_item hf hS hn key _ _ _ (present rendered)
  | leaf k =>
    rw [hr rfl]
    exact collect_leaf hf hS hn key k
  | unknown =>
    rw [hr rfl]
    rfl

/-- What is found in a table: what is found in its children, in the order in which it shows
them. -/
theorem collect_output_table {kids : List Node} {attrs auto : Attributes}
    (hn : (Node.container .table kids attrs auto).avoids S = true)
    (rendered : List (Option Html)) :
    collect f (output ⟨∅, links⟩ key tight σ rendered (.container .table kids attrs auto)).toList =
      (tableOrder (kids.zip rendered)).flatMap fun h => collect f h.toList :=
  (collect_container hf hS hn key .table _).trans (TableParts.collect_toList (kids.zip rendered) hf)

omit hf hS

/-- What nothing is found in when it is rendered anywhere, nothing is found in among siblings. -/
theorem collect_each_of {ns : List Node}
    (h : ∀ n ∈ ns, ∀ key σ, collect f (node ⟨∅, links⟩ key tight n σ).1.toList = []) (i : Nat)
    (σ : Numbering) : ∀ o ∈ (each ⟨∅, links⟩ tight i ns σ).1, collect f o.toList = [] := by
  induction ns generalizing i σ with
  | nil =>
    rw [each_nil]
    exact fun o ho => absurd ho List.not_mem_nil
  | cons n ns ih =>
    rw [each_cons, List.forall_mem_cons]
    exact ⟨h n List.mem_cons_self _ _, ih (fun m hm => h m (List.mem_cons_of_mem n hm)) _ _⟩

include hf hS in
/-- A reading that finds nothing in references finds nothing in what nodes render to. -/
theorem collect_node_eq_nil
    (href : ∀ n key label a, n.avoids S = true → f (footnoteReference ∅ n key label a) = none)
    (hl : links.Avoids S) (n : Node) (hn : n.avoids S = true)
    (hbelow : ∀ m ∈ n.descendants, m.avoids S = true) (key : Option String)
    (tight : Option Bool) (σ : Numbering) :
    collect f (node ⟨∅, links⟩ key tight n σ).1.toList = [] := by
  induction n using Node.induction_content generalizing key tight σ with
  | step n ih =>
    have hcontent := collect_each_of (fun m hm key σ => by
      obtain ⟨hmem, hsub⟩ := Node.mem_descendants_of_mem_content hm
      exact ih ∅ tight m hm (hbelow m hmem) (fun k hk => hbelow k (hsub hk)) key n.tightness σ) 0
        (n.ownLabels.foldl Numbering.record σ)
    rw [node_run (Node.isDoc_of_avoids hn)]
    cases htable : n.isTable with
    | false =>
      rw [collect_output hf hS hl hn htable each_eq_nil, collect_present,
        List.flatMap_eq_nil_iff.2 hcontent, List.append_nil, List.flatMap_eq_nil_iff]
      exact fun label _ => by rw [href n key label _ hn, Option.toList_none]
    | true =>
      obtain ⟨kids, attrs, auto, rfl⟩ := Node.eq_of_isTable htable
      rw [collect_output_table hf hS hn, List.flatMap_eq_nil_iff]
      intro o ho
      obtain ⟨c, hc, rfl⟩ := List.mem_map.1 (tableOrder_subset _ ho)
      exact hcontent _ (List.of_mem_zip hc).2

include hf hS in
/-- A reading that finds nothing in references finds nothing in what siblings render to. -/
theorem collect_each_eq_nil
    (href : ∀ n key label a, n.avoids S = true → f (footnoteReference ∅ n key label a) = none)
    (hl : links.Avoids S) {ns : List Node} (hns : ∀ n ∈ Node.forest ns, n.avoids S = true) (i : Nat)
    (tight : Option Bool) (σ : Numbering) :
    collect f (present (each ⟨∅, links⟩ tight i ns σ).1) = [] := by
  rw [collect_present, List.flatMap_eq_nil_iff]
  exact collect_each_of (fun n hn key σ => collect_node_eq_nil hf hS href hl n
    (hns n (Node.mem_forest_of_mem hn))
    (fun m hm => hns m (Node.descendants_subset_forest hn hm)) key tight σ) i σ

/-! ### Landmarks -/

theorem isForeign_role : IsForeign (· == "role") := by
  unfold IsForeign
  decide

theorem mem_anchorNames_of_role (name : String) (h : (name == "role") = true) :
    name ∈ anchorNames := by
  rw [eq_of_beq h]
  decide

/-- The landmarks of the output of a node that is no table: the reference that it is itself, and
those of what is rendered inside it. -/
theorem landmarks_output (hl : links.IsPlain) (hn : n.isPlain = true) (ht : n.isTable = false)
    {rendered : List (Option Html)} (hr : n.content ∅ tight = [] → rendered = []) :
    landmarks (output ⟨∅, links⟩ key tight σ rendered n).toList =
      n.ownLabels.map (fun label => .ofNumber (σ.index label)) ++
        landmarks (present rendered) := by
  have h : landmarks (output ⟨∅, links⟩ key tight σ rendered n).toList = _ ++ _ :=
    collect_output overlooks_landmark? isForeign_role (hl.avoids mem_anchorNames_of_role)
      (Node.avoids_of_isPlain hn mem_anchorNames_of_role) ht hr
  simp only [landmark?_footnoteReference key hn, Option.toList_some] at h
  rwa [← List.map_eq_flatMap] at h

/-- The landmarks of a table: those of its children, in the order in which it shows them. -/
theorem landmarks_output_table {kids : List Node} {attrs auto : Attributes}
    (hn : (Node.container .table kids attrs auto).isPlain = true)
    (rendered : List (Option Html)) :
    landmarks (output ⟨∅, links⟩ key tight σ rendered (.container .table kids attrs auto)).toList =
      (tableOrder (kids.zip rendered)).flatMap fun h => landmarks h.toList :=
  collect_output_table overlooks_landmark? isForeign_role
    (Node.avoids_of_isPlain hn mem_anchorNames_of_role) rendered

end Render

end DocMarkup
