import DocMarkup.Proofs.Render.PlainOutput

/-!
# The text of an output

A rendering shows the text of every leaf of a tree once and in document order, whatever it does to
the nodes around the leaves: a paragraph may give way to its content, a box may come in front, a
caption without content may be missing. Quoted content has its marks around it, and breaks have the
text of white space or none. Tables change the order of their children and documents add notes, so
trees with such nodes are left out, and so are those with images, raw content, references to
footnotes and nodes of unknown kinds, which show something else than text of their own or nothing.

## Main definitions

* `Html.texts` : the texts in an output, in order.
* `punctuationGlyphs`, `shownPunctuation` : the text that punctuation is shown as.
* `Node.leafTexts` : the texts that the leaves of a tree stand for, in document order.
* `Node.showsText` : whether a node shows its text and all that is inside it, in order.

## Main results

* `Render.texts_render` : the texts in the output of a tree are those of its leaves.
-/

namespace DocMarkup

namespace Html

/-- The text that a tree is, if it is one. -/
def text? : Html → Option String
  | text s => some s
  | element .. | fragment .. => none

/-- The texts in trees side by side, in order. -/
def texts (hs : List Html) : List String := collect text? hs

theorem texts_append (hs hs' : List Html) : texts (hs ++ hs') = texts hs ++ texts hs' :=
  collect_append hs hs'

theorem texts_element (tag : String) (key : Option String) (props : Props) (kids : List Html) :
    texts [element tag key props kids] = texts kids := collect_element tag key props kids

theorem texts_fragment (key : Option String) (kids : List Html) :
    texts [fragment key kids] = texts kids := by
  rw [texts, collect, subtreesAll, subtreesAll, subtrees, List.append_nil, List.filterMap_cons]
  rfl

end Html

/-- The text that a literal is shown as: mathematics stands between its delimiters. -/
def LiteralKind.shownText (k : LiteralKind) (text : String) : String :=
  match k with
  | inlineMath => "\\(" ++ text ++ "\\)"
  | displayMath => "\\[" ++ text ++ "\\]"
  | code | verbatim | url | email | str => text

/-- The text of a leaf without a text of its own, if it has any. -/
def LeafKind.shownText? : LeafKind → Option String
  | nonBreakingSpace => some "\u00a0"
  | softBreak | softbreak => some "\n"
  | thematicBreak | hardBreak | hardbreak => none

/-- The types of punctuation that have a glyph, with their glyphs. -/
def punctuationGlyphs : List (String × String) :=
  [("left_double_quote", "\u201c"), ("right_double_quote", "\u201d"),
    ("left_single_quote", "\u2018"), ("right_single_quote", "\u2019"), ("em_dash", "\u2014"),
    ("en_dash", "\u2013"), ("ellipses", "\u2026")]

/-- The text that punctuation of a type is shown as: its glyph, or what was written if the type has
none. -/
def shownPunctuation (type written : String) : String :=
  (punctuationGlyphs.lookup type).getD written

theorem Glyph.ofType_eq (type written : String) :
    ofType type written = shownPunctuation type written := by
  unfold ofType
  split
  case h_8 h₁ h₂ h₃ h₄ h₅ h₆ h₇ =>
    have hnone : punctuationGlyphs.lookup type = none := by
      simp only [punctuationGlyphs, List.lookup_eq_none_iff, List.forall_mem_cons, bne_iff_ne]
      exact ⟨h₁, h₂, h₃, h₄, h₅, h₆, h₇, List.forall_mem_nil _⟩
    rw [shownPunctuation, hnone, Option.getD_none]
  all_goals rfl

namespace Node

mutual

/-- The texts that the leaves of a tree stand for, in document order. Quotation marks stand around
what is quoted. -/
def leafTexts : Node → List String
  | literal k text _ => [k.shownText text]
  | codeBlock _ text _ => [text]
  | symb name _ => [":" ++ name ++ ":"]
  | smartPunctuation type text _ => [shownPunctuation type text]
  | leaf k _ => k.shownText?.toList
  | container .doubleQuoted kids .. => "\u201c" :: leafTextsAll kids ++ ["\u201d"]
  | container .singleQuoted kids .. => "\u2018" :: leafTextsAll kids ++ ["\u2019"]
  | container _ kids .. => leafTextsAll kids
  | doc kids .. => leafTextsAll kids
  | heading _ kids .. => leafTextsAll kids
  | row _ kids _ => leafTextsAll kids
  | cell _ _ kids _ => leafTextsAll kids
  | footnote ⟨_, kids, _⟩ => leafTextsAll kids
  | link _ _ _ kids _ => leafTextsAll kids
  | list _ _ _ kids _ => leafTextsAll kids
  | orderedList _ _ _ kids _ => leafTextsAll kids
  | taskListItem _ kids _ => leafTextsAll kids
  | footnoteReference .. | raw .. | unknown => []

/-- The texts that the leaves of trees side by side stand for, in order. -/
def leafTextsAll : List Node → List String
  | [] => []
  | n :: rest => n.leafTexts ++ leafTextsAll rest

end

/-- Whether a node shows its text, or all that is inside it in document order. -/
def showsText : Node → Bool
  | doc .. | container .table .. | link .image .. | raw .. | footnoteReference .. | unknown => false
  | _ => true

theorem isDoc_of_showsText {n : Node} (h : n.showsText = true) : n.isDoc = false := by
  cases n with
  | doc => cases h
  | _ => rfl

/-- A paragraph that gives way to its content has no text of its own. -/
theorem leafTextsAll_itemContent (kids : List Node) (unwrap : Bool) :
    leafTextsAll (itemContent kids unwrap) = leafTextsAll kids := by
  unfold itemContent
  split
  · exact (List.append_nil _).symm
  · rfl

end Node

namespace Single

open Html

variable {n : Node} {key : Option String}

theorem texts_request (tag : String) (kind : Kind) (own : Props) (inputs : Inputs)
    (children : List Html) :
    texts [element ∅ tag (request kind n key own inputs children)] = texts children := by
  rw [element, Overrides.build, Overrides.pick_empty]
  exact texts_element tag key _ children

theorem texts_group (r : Request) : texts [group ∅ r] = texts r.children := by
  rw [group, Overrides.build, Overrides.pick_empty]
  exact texts_fragment r.key r.children

theorem texts_bareText (kind : Kind) (text : String) (inputs : Inputs) :
    texts [bareText ∅ kind n key text inputs] = [text] := by
  rw [bareText, Overrides.build, Overrides.pick_empty]
  rfl

/-- A container shows what is inside it, between its marks. -/
theorem texts_container (k : ContainerKind) (children : List Html) :
    texts (container ∅ k n key children).toList = texts (marked k children) := by
  unfold container
  dsimp only
  split
  · rename_i hempty
    -- A caption that is left out is empty and has no marks.
    simp only [Bool.and_eq_true, decide_eq_true_eq, List.isEmpty_iff] at hempty
    obtain ⟨⟨rfl, rfl⟩, -⟩ := hempty
    rfl
  · split
    · exact texts_request _ _ _ _ _
    · exact texts_group _

theorem texts_item (kind : Kind) (tight : Option Bool) (checkbox : Option Checkbox)
    (content : List Html) :
    texts [item ∅ kind n key tight checkbox content] = texts content := by
  have hbox : texts (if Overrides.hasComponent ∅ kind = true then []
      else (checkbox.map Html.checkbox).toList) = [] := by
    split
    · rfl
    · cases checkbox <;> rfl
  rw [item, texts_request, texts_append, hbox, List.nil_append]

theorem texts_literal (k : LiteralKind) (text : String) :
    texts [literal ∅ k n key text] = [k.shownText text] := by
  cases k with
  | str => exact texts_bareText _ _ _
  | code | verbatim => exact texts_request _ _ _ _ _
  | inlineMath | displayMath =>
    rw [literal, math, texts_request]
    rfl
  | url | email =>
    rw [literal, autolink, texts_request]
    rfl

theorem texts_leaf (k : LeafKind) : texts [leaf ∅ k n key] = k.shownText?.toList := by
  cases k with
  | thematicBreak | hardBreak | hardbreak => exact texts_request _ _ _ _ _
  | softBreak | softbreak | nonBreakingSpace => exact texts_bareText _ _ _

end Single

namespace Render

open Html Single

variable {links : Links} {n : Node} {key : Option String} {tight : Option Bool} {σ : Numbering}

/-- **The texts in the output of a node** are those of its leaves, if those in what is rendered
inside it are. -/
theorem texts_output (hn : n.showsText = true) {rendered : List (Option Html)}
    (hr : texts (present rendered) = Node.leafTextsAll (n.content ∅ tight)) :
    texts (output ⟨∅, links⟩ key tight σ rendered n).toList = n.leafTexts := by
  cases n with
  | doc | footnoteReference | raw | unknown => cases hn
  | container k kids attrs auto =>
    by_cases hitem : k = .listItem
    · subst hitem
      exact (texts_item _ _ _ _).trans (hr.trans (Node.leafTextsAll_itemContent _ _))
    · have htable : k ≠ .table := by
        rintro rfl
        cases hn
      rw [output_container htable hitem, texts_container]
      cases k with
      | listItem => exact absurd rfl hitem
      | doubleQuoted | singleQuoted =>
        change texts ([.text _] ++ (present rendered ++ [.text _])) = _
        rw [texts_append, texts_append, hr]
        rfl
      | _ => exact hr
  | link k =>
    cases k with
    | link => exact (texts_request _ _ _ _ _).trans hr
    | image => cases hn
  | footnote note =>
    cases note
    exact (texts_request _ _ _ _ _).trans hr
  | heading | row | cell | list | orderedList => exact (texts_request _ _ _ _ _).trans hr
  | taskListItem => exact (texts_item _ _ _ _).trans (hr.trans (Node.leafTextsAll_itemContent _ _))
  | smartPunctuation type text =>
    exact (texts_bareText _ _ _).trans (congrArg ([·]) (Glyph.ofType_eq type text))
  | symb => exact texts_bareText _ _ _
  | literal k text => exact texts_literal k text
  | codeBlock lang text => exact texts_request _ _ _ _ _
  | leaf k => exact texts_leaf k

theorem texts_each {ns : List Node}
    (h : ∀ m ∈ ns, ∀ key σ, texts (node ⟨∅, links⟩ key tight m σ).1.toList = m.leafTexts) (i : Nat)
    (σ : Numbering) : texts (present (each ⟨∅, links⟩ tight i ns σ).1) = Node.leafTextsAll ns := by
  induction ns generalizing i σ with
  | nil =>
    rw [each_nil]
    rfl
  | cons n ns ih =>
    rw [each_cons, present_cons, texts_append, h n List.mem_cons_self,
      ih fun m hm => h m (List.mem_cons_of_mem n hm), Node.leafTextsAll]

theorem texts_node (n : Node) (h : ∀ m ∈ n :: n.descendants, m.showsText = true)
    (key : Option String) (tight : Option Bool) (σ : Numbering) :
    texts (node ⟨∅, links⟩ key tight n σ).1.toList = n.leafTexts := by
  induction n using Node.induction_content generalizing key tight σ with
  | step n ih =>
    have hn := h n List.mem_cons_self
    rw [node_run (Node.isDoc_of_showsText hn)]
    refine texts_output hn (texts_each (fun m hm key σ => ?_) 0 _)
    obtain ⟨hmem, hsub⟩ := Node.mem_descendants_of_mem_content hm
    refine ih ∅ tight m hm (fun x hx => ?_) key n.tightness σ
    rcases List.mem_cons.1 hx with rfl | hx
    · exact h x (List.mem_cons_of_mem n hmem)
    · exact h x (List.mem_cons_of_mem n (hsub hx))

/-- **Rendering loses, repeats and reorders no text.** In a tree of nodes that show their text, the
texts in the output are one by one those of the leaves in document order, and so the text of the
output is the text of the leaves. -/
theorem texts_render (n : Node) (h : ∀ m ∈ n :: n.descendants, m.showsText = true) :
    texts (n.render ∅).toList = n.leafTexts ∧
      String.join (texts (n.render ∅).toList) = String.join n.leafTexts := by
  have htexts : texts (n.render ∅).toList = n.leafTexts := texts_node n h none none {}
  exact ⟨htexts, congrArg String.join htexts⟩

/-- A section with quotations, a tight list of tasks, a caption without content, and leaves of all
kinds. -/
def leafy : Node :=
  let words (text : String) : Node := .literal .str text ∅
  .container .sectionGroup
    [.container .caption [] ∅ ∅,
      .container .para
        [.container .doubleQuoted [words "a", .container .singleQuoted [words "b"] ∅ ∅] ∅ ∅,
          .leaf .softBreak ∅, .literal .inlineMath "x" ∅, .leaf .hardBreak ∅, .symb "s" ∅] ∅ ∅,
      .list .task true none
        [.taskListItem .checked [.container .para [words "c", .leaf .nonBreakingSpace ∅] ∅ ∅] ∅] ∅,
      .smartPunctuation "em_dash" "---" ∅, .smartPunctuation "right_single_quote" "'" ∅,
      .smartPunctuation "ellipses" "..." ∅, .smartPunctuation "interrobang" "?!" ∅,
      .codeBlock (some "lean") "d" ∅, .literal .email "e" ∅] ∅ ∅

theorem texts_render_leafy :
    (∀ m ∈ leafy :: leafy.descendants, m.showsText = true) ∧
      texts (leafy.render ∅).toList = ["\u201c", "a", "\u2018", "b", "\u2019", "\u201d", "\n",
        "\\(x\\)", ":s:", "c", "\u00a0", "\u2014", "\u2019", "\u2026", "?!", "d", "e"] :=
  have h : ∀ m ∈ leafy :: leafy.descendants, m.showsText = true := by decide
  ⟨h, (texts_render leafy h).1.trans rfl⟩

end Render

end DocMarkup
