import DocMarkup.Proofs.RawHtml.MarkupTokens
import DocMarkup.Proofs.RawHtml.Elements

/-!
# Written markup is read back

The markup of an output tree, read as raw HTML, is the tree again up to what is not written:
groups dissolve, keys are forgotten, texts that meet become one and empty texts vanish. An element
keeps its attributes as they are written, their names in small letters. The tags have to be tags
as they are read, void elements have to be empty, and the nesting must not be too deep.

## Main definitions

* `RawHtml.mergeTexts` : nodes with the texts that meet made one.
* `Html.readProperty?` : the attribute that is read for a property.
* `Html.rawNodes` : what is read for a tree, before texts are merged.
* `Html.normalForm` : what is read for a tree.
* `Html.depth` : how deep the elements of a tree are nested.
* `Html.FitsIn` : a tree is read as it stands where it is written.

## Main results

* `Html.fragment_markup_of_fitsAllIn` : the markup of trees that are read as they stand.
* `Html.fragment_markup` : the markup of a tree is read as its normal form.
-/

namespace DocMarkup

namespace RawHtml

/-! ### Texts that meet -/

/-- A text in front of nodes, which becomes part of a text at their start. -/
def prependRawText (s : String) : List RawNode → List RawNode
  | .text t :: rest => .text (s ++ t) :: rest
  | ns => if s = "" then ns else .text s :: ns

/-- Nodes with the texts that meet made one and the empty ones dropped. -/
def mergeTexts : List RawNode → List RawNode
  | [] => []
  | .text s :: rest => prependRawText s (mergeTexts rest)
  | n :: rest => n :: mergeTexts rest

/-- Nodes with one more node at their end, which becomes part of a text there if it is one. -/
def appendNode (ns : List RawNode) : RawNode → List RawNode
  | .text s => if s = "" then ns else appendText ns s
  | n => ns ++ [n]

theorem appendText_append_element (ns : List RawNode) (tag : String)
    (attrs : List (String × String)) (kids : List RawNode) (s : String) :
    appendText (ns ++ [.element tag attrs kids]) s = ns ++ [.element tag attrs kids, .text s] := by
  induction ns with
  | nil => rfl
  | cons n ns ih =>
    rw [List.cons_append, List.cons_append, ← ih]
    cases n <;> cases ns <;> rfl

theorem appendText_appendText (ns : List RawNode) (s t : String) :
    appendText (appendText ns s) t = appendText ns (s ++ t) := by
  fun_induction appendText ns s with
  | case1 => rfl
  | case2 u => simp only [appendText, String.append_assoc]
  | case3 n ns hn ih =>
    have hne : appendText ns s ≠ [] := by
      unfold appendText
      split <;> simp
    obtain ⟨m, ms, hm⟩ := List.exists_cons_of_ne_nil hne
    rw [hm] at ih
    rw [hm, appendText, ih, appendText]
    · exact hn
    · simp

/-- Nodes put after nodes that are merged already: only where the two meet a text can become
longer. -/
def meet (ns : List RawNode) : List RawNode → List RawNode
  | [] => ns
  | .text s :: rest => appendText ns s ++ rest
  | ms => ns ++ ms

theorem meet_prependRawText (ns : List RawNode) {s : String} (hs : s ≠ "") (ms : List RawNode) :
    meet ns (prependRawText s ms) = meet (appendText ns s) ms := by
  unfold prependRawText
  split
  · simp only [meet, appendText_appendText]
  · rename_i hms
    rw [if_neg hs]
    cases ms with
    | nil => simp only [meet, List.append_nil]
    | cons m ms =>
      cases m with
      | text t => exact absurd rfl (hms t ms)
      | element tag attrs kids => rfl

theorem meet_append_element (ns ms : List RawNode) (tag : String)
    (attrs : List (String × String)) (kids : List RawNode) :
    meet (ns ++ [.element tag attrs kids]) ms = ns ++ .element tag attrs kids :: ms := by
  cases ms with
  | nil => rfl
  | cons m ms =>
    cases m with
    | text s => rw [meet, appendText_append_element]; simp
    | element => simp only [meet, List.append_assoc, List.cons_append, List.nil_append]

theorem prependRawText_empty (ns : List RawNode) : prependRawText "" ns = ns := by
  unfold prependRawText
  split <;> simp

/-- Adding nodes one after the other merges them. -/
theorem foldl_appendNode (ms ns : List RawNode) :
    ms.foldl appendNode ns = meet ns (mergeTexts ms) := by
  induction ms generalizing ns with
  | nil => rfl
  | cons m ms ih =>
    rw [List.foldl_cons, ih]
    cases m with
    | text s =>
      by_cases hs : s = ""
      · rw [mergeTexts, hs, prependRawText_empty, appendNode, if_pos rfl]
      · rw [mergeTexts, meet_prependRawText ns hs, appendNode, if_neg hs]
    | element tag attrs kids => exact meet_append_element ns (mergeTexts ms) tag attrs kids

theorem foldl_appendNode_nil (ms : List RawNode) : ms.foldl appendNode [] = mergeTexts ms := by
  rw [foldl_appendNode]
  cases mergeTexts ms with
  | nil => rfl
  | cons m ms => cases m <;> rfl

/-! ### Texts that meet while a tree is built -/

namespace Builder

theorem modify_modify (b : Builder) (f g : List RawNode → List RawNode) :
    (b.modify f).modify g = b.modify (g ∘ f) := by
  rcases b with ⟨top, _ | ⟨e, outer⟩⟩ <;> rfl

theorem modify_id (b : Builder) : b.modify id = b := by
  rcases b with ⟨top, _ | ⟨e, outer⟩⟩ <;> rfl

/-- A step that passes over an empty text. -/
def stepWritten (b : Builder) (t : Token) : Builder := if t = .text [] then b else b.step t

theorem stepWritten_text_escapeChars (b : Builder) (s : List Char) :
    b.stepWritten (.text (Html.escapeChars s)) =
      b.modify fun ns => appendNode ns (.text (String.ofList s)) := by
  unfold stepWritten
  by_cases hs : s = []
  · rw [hs, if_pos (show Token.text (Html.escapeChars []) = .text [] from rfl)]
    exact (modify_id b).symm
  · have he : ¬ Token.text (Html.escapeChars s) = .text [] := fun h =>
      hs (Html.escapeChars_eq_nil_iff.1 (Token.text.inj h))
    have hs' : String.ofList s ≠ "" := fun h => hs (by simpa using congrArg String.toList h)
    rw [if_neg he, step, Entity.decodeChars_escapeChars]
    simp only [appendNode, if_neg hs']
    rfl

/-- Taking an escaped text that was joined with what follows is taking the two in turn. -/
theorem foldl_step_prependText (b : Builder) (s : List Char) {ts : List Token} :
    (prependText (Html.escapeChars s) ts).foldl step b =
      ts.foldl step (b.stepWritten (.text (Html.escapeChars s))) := by
  by_cases hs : s = []
  · rw [hs]
    exact congrArg (List.foldl step b) (prependText_nil ts)
  have hs' : Html.escapeChars s ≠ [] := fun h => hs (Html.escapeChars_eq_nil_iff.1 h)
  have hw : b.stepWritten (.text (Html.escapeChars s)) = b.step (.text (Html.escapeChars s)) :=
    if_neg fun h => hs' (Token.text.inj h)
  unfold prependText
  split
  · rename_i t rest
    rw [hw, List.foldl_cons, List.foldl_cons]
    congr 1
    simp only [step, addText, modify_modify, Entity.decodeChars_escapeChars_append,
      Entity.decodeChars_escapeChars, String.ofList_append]
    congr 1
    funext ns
    exact (appendText_appendText ns _ _).symm
  · rw [if_neg hs', hw, List.foldl_cons]

/-- Written tokens build the same tree before and after texts that meet are joined. -/
theorem foldl_step_joinTexts {ts : List Token} (hts : ∀ t ∈ ts, t.IsWritten) (b : Builder) :
    (joinTexts ts).foldl step b = ts.foldl stepWritten b := by
  induction ts generalizing b with
  | nil => rfl
  | cons t ts ih =>
    have hrest : ∀ t ∈ ts, t.IsWritten := fun u hu => hts u (List.mem_cons_of_mem t hu)
    rw [List.foldl_cons, ← ih hrest]
    cases hts t List.mem_cons_self with
    | text s => exact foldl_step_prependText b s
    | startTag selfClosing hname hattrs => rfl
    | endTag hname => rfl

end Builder

end RawHtml

/-! ### What is read for a tree -/

namespace Html

open RawHtml

/-- Names that are written: they start with a letter, `_` or `:` and hold nothing but letters,
digits, `-`, `_`, `:` and `.`. -/
def isWrittenName (s : List Char) : Bool :=
  (s.head?.any fun c => c.isAlpha || c = '_' || c = ':') &&
    s.all fun c => c.isAlphanum || c = '-' || c = '_' || c = ':' || c = '.'

theorem isAttributeName_eq_isWrittenName (s : String) :
    isAttributeName s = isWrittenName s.toList := by
  rw [Bool.eq_iff_iff, isAttributeName_iff]
  cases hs : s.toList with
  | nil => simp [isWrittenName]
  | cons c cs =>
    simp only [isWrittenName, List.head?_cons, Option.any_some, List.all_cons, Bool.and_eq_true,
      Bool.or_eq_true, decide_eq_true_eq, List.all_eq_true, or_assoc]
    constructor
    · rintro ⟨c', cs', he, hc, hcs⟩
      cases he
      refine ⟨hc, ?_, hcs⟩
      rcases hc with hc | hc | hc
      · exact Or.inl (by simp [Char.isAlphanum, hc])
      · simp [hc]
      · simp [hc]
    · rintro ⟨hc, -, hcs⟩
      exact ⟨c, cs, rfl, hc, hcs⟩

/-- What is read for the value of a property; nothing for a flag that is off and for a style
without declarations. -/
def readValue? : PropValue → Option String
  | .text s => some s
  | .flag b => if b then some "" else none
  | .number n => some (Decimal.text n.toNat)
  | .style s => if s.entries = [] then none else some s.css

/-- What is read for a property: its name in small letters, `class` for `className` and `for` for
`htmlFor`, and its value; nothing for a name that is not written. -/
def readProperty? (e : String × PropValue) : Option (String × String) :=
  let name := match e.1 with
    | "className" => "class"
    | "htmlFor" => "for"
    | name => name
  if isWrittenName name.toList then (readValue? e.2).map fun v => (lowered name.toList, v)
  else none

/-- The attributes that are read for properties, in order. -/
def readProperties (p : Props) : List (String × String) := p.entries.filterMap readProperty?

theorem attributeValue?_eq_readValue? (v : PropValue) : attributeValue? v = readValue? v := by
  cases v with
  | flag b => cases b <;> rfl
  | style s =>
    simp only [attributeValue?, readValue?, OrderedMap.isEmpty, List.isEmpty_iff]
  | _ => rfl

/-- The attribute that is read for a property is the one that is written for it, its name made
small. -/
theorem map_readBack_attribute? (e : String × PropValue) :
    (attribute? e).map readBack = readProperty? e := by
  have hname : attributeName e.1 = match e.1 with
      | "className" => "class"
      | "htmlFor" => "for"
      | name => name := by
    unfold attributeName
    split
    · simp_all
    · split <;> simp_all
  simp only [attribute?, readProperty?, ← hname, isAttributeName_eq_isWrittenName,
    attributeValue?_eq_readValue?]
  split
  · rw [Option.map_map]
    rfl
  · rfl

/-- The attributes that are read for properties are those that are written for them, their names
made small. -/
theorem map_readBack_attributes (p : Props) :
    (attributes p).map readBack = readProperties p := by
  rw [attributes, List.map_filterMap, readProperties]
  exact congrArg (List.filterMap · p.entries) (funext map_readBack_attribute?)

mutual

/-- What is read for a tree, before texts that meet become one. -/
def rawNodes : Html → List RawNode
  | text s => [.text s]
  | fragment _ kids => rawNodesAll kids
  | element tag _ props kids =>
    [.element tag (readProperties props) (mergeTexts (rawNodesAll kids))]

/-- What is read for trees side by side, before texts that meet become one. -/
def rawNodesAll : List Html → List RawNode
  | [] => []
  | h :: rest => h.rawNodes ++ rawNodesAll rest

end

/-- What is read for a tree: groups dissolved, keys forgotten, texts merged, and the attributes
as they are written with their names in small letters. -/
def normalForm (h : Html) : List RawNode := mergeTexts h.rawNodes

mutual

/-- How deep the elements of a tree are nested. -/
def depth : Html → Nat
  | text _ => 0
  | fragment _ kids => depthAll kids
  | element _ _ _ kids => depthAll kids + 1

/-- How deep the elements of trees side by side are nested. -/
def depthAll : List Html → Nat
  | [] => 0
  | h :: rest => max h.depth (depthAll rest)

end

/-- All void elements are empty. -/
abbrev HasEmptyVoids (hs : List Html) : Prop :=
  AllElements (fun tag _ _ kids => isVoid tag = true → kids = []) hs

mutual

/-- The tree is read as it stands when it is written inside elements of the given tags: its void
elements are empty, and so are its elements that are nested too deep to hold anything; and none of
these has the tag of an element around it, which its end tag would close. -/
def FitsIn (around : List String) : Html → Prop
  | text _ => True
  | fragment _ kids => FitsAllIn around kids
  | element tag _ _ kids =>
    if isVoid tag then kids = []
    else if around.length < maxDepth then FitsAllIn (tag :: around) kids
    else kids = [] ∧ tag ∉ around

/-- The trees side by side are read as they stand when they are written inside elements of the
given tags. -/
def FitsAllIn (around : List String) : List Html → Prop
  | [] => True
  | h :: rest => FitsIn around h ∧ FitsAllIn around rest

end

mutual

/-- A tree with empty void elements that is not nested too deep is read as it stands. -/
theorem fitsIn_of_depth_le (around : List String) :
    (h : Html) → HasEmptyVoids [h] → around.length + h.depth ≤ maxDepth → FitsIn around h
  | text _, _, _ => trivial
  | fragment _ kids, hv, hd => fitsAllIn_of_depthAll_le around kids (allElements_fragment.1 hv) hd
  | element tag _ _ kids, hv, hd => by
      rw [depth] at hd
      rw [FitsIn]
      split
      · rename_i hvoid
        exact (allElements_element.1 hv).1 hvoid
      · rw [if_pos (by omega)]
        exact fitsAllIn_of_depthAll_le (tag :: around) kids (allElements_element.1 hv).2
          (by rw [List.length_cons]; omega)

theorem fitsAllIn_of_depthAll_le (around : List String) :
    (hs : List Html) → HasEmptyVoids hs → around.length + depthAll hs ≤ maxDepth →
      FitsAllIn around hs
  | [], _, _ => trivial
  | h :: rest, hv, hd => by
      rw [depthAll] at hd
      exact ⟨fitsIn_of_depth_le around h (allElements_cons.1 hv).1 (by omega),
        fitsAllIn_of_depthAll_le around rest (allElements_cons.1 hv).2 (by omega)⟩

end

end Html

namespace RawHtml.Builder

theorem stepWritten_startTag (b : Builder) (tag : String) (props : Props) (selfClosing : Bool) :
    b.stepWritten (.startTag tag.toList ((Html.attributes props).flatMap Html.attributeChars)
      selfClosing) = b.openElement tag (Html.readProperties props) selfClosing := by
  rw [stepWritten, if_neg (fun h => nomatch h), step, String.ofList_toList,
    attributeList_attributeChars fun a ha => Html.isAttributeName_of_mem_attributes ha,
    Html.map_readBack_attributes]

theorem stepWritten_endTag (b : Builder) (tag : String) :
    b.stepWritten (.endTag tag.toList) = b.closeElement tag := by
  rw [stepWritten, if_neg (fun h => nomatch h), step, String.ofList_toList]

/-- An element that can hold something is opened, as long as there is room below it. -/
theorem openElement_eq {b : Builder} {tag : String} {attrs : List (String × String)}
    (hv : Html.isVoid tag = false) (hd : b.opened.length < maxDepth) :
    b.openElement tag attrs false = { b with opened := ⟨tag, attrs, []⟩ :: b.opened } := by
  simp only [openElement, hv, decide_eq_false (Nat.not_le.2 hd), Bool.or_self, Bool.false_eq_true,
    if_false]

/-- A start tag and an end tag around what is built make an element of it. -/
theorem closeElement_modify_openElement {b : Builder} {tag : String}
    {attrs : List (String × String)} (hv : Html.isVoid tag = false)
    (hd : b.opened.length < maxDepth) (f : List RawNode → List RawNode) :
    ((b.openElement tag attrs false).modify f).closeElement tag =
      b.modify (· ++ [.element tag attrs (f [])]) := by
  rw [openElement_eq hv hd]
  simp only [modify, closeElement, List.findIdx?_cons, decide_true, if_true, closeMany, close]
  rfl

/-- The tags of the open elements, from the innermost outwards. -/
def tags (b : Builder) : List String := b.opened.map (·.tag)

theorem tags_modify (b : Builder) (f : List RawNode → List RawNode) : (b.modify f).tags = b.tags := by
  rcases b with ⟨top, _ | ⟨e, outer⟩⟩ <;> rfl

/-- An end tag that matches no open element is passed over. -/
theorem closeElement_of_notMem_tags {b : Builder} {tag : String} (h : tag ∉ b.tags) :
    b.closeElement tag = b := by
  have hnone : b.opened.findIdx? (·.tag = tag) = none := by
    rw [List.findIdx?_eq_none_iff]
    exact fun e he => decide_eq_false fun heq => h (List.mem_map.2 ⟨e, he, heq⟩)
  rw [closeElement, hnone]

mutual

/-- The tokens of a tree that is read as it stands add what is read for it to what is being
built. -/
theorem foldl_stepWritten_tokens : (h : Html) → (b : Builder) → h.FitsIn b.tags →
      h.tokens.foldl stepWritten b = b.modify fun ns => h.rawNodes.foldl appendNode ns
  | .text s, b, _ => by
      rw [Html.tokens, List.foldl_cons, List.foldl_nil, stepWritten_text_escapeChars,
        String.ofList_toList]
      rfl
  | .fragment key kids, b, hfits => by
      rw [Html.tokens, Html.rawNodes]
      exact foldl_stepWritten_tokensAll kids b hfits
  | .element tag key props kids, b, hfits => by
      rw [Html.FitsIn] at hfits
      rw [Html.tokens, List.foldl_cons, stepWritten_startTag]
      cases hvoid : Html.isVoid tag with
      | true =>
        rw [if_pos hvoid] at hfits
        rw [hfits]
        simp only [if_true, List.foldl_nil, openElement, hvoid, Bool.true_or]
        rfl
      | false =>
        rw [hvoid, if_neg Bool.false_ne_true, tags, List.length_map] at hfits
        rw [if_neg Bool.false_ne_true, List.foldl_append]
        by_cases hopen : b.opened.length < maxDepth
        · rw [if_pos hopen] at hfits
          have hinside : (b.openElement tag (Html.readProperties props) false).tags =
              tag :: b.tags := by
            rw [openElement_eq hvoid hopen]
            rfl
          rw [foldl_stepWritten_tokensAll kids _ (by rw [hinside]; exact hfits),
            List.foldl_cons, List.foldl_nil, stepWritten_endTag,
            closeElement_modify_openElement hvoid hopen, foldl_appendNode_nil]
          rfl
        · rw [if_neg hopen] at hfits
          have hadd : b.openElement tag (Html.readProperties props) false =
              b.add (.element tag (Html.readProperties props) []) := by
            simp only [openElement, decide_eq_true (Nat.not_lt.1 hopen), Bool.or_true, if_true]
          rw [hfits.1, Html.tokensAll, List.foldl_nil, List.foldl_cons, List.foldl_nil,
            stepWritten_endTag, hadd,
            closeElement_of_notMem_tags (by rw [add, tags_modify]; exact hfits.2)]
          rfl

/-- The tokens of trees side by side that are read as they stand add what is read for them to what
is being built. -/
theorem foldl_stepWritten_tokensAll : (hs : List Html) → (b : Builder) →
    Html.FitsAllIn b.tags hs → (Html.tokensAll hs).foldl stepWritten b =
      b.modify fun ns => (Html.rawNodesAll hs).foldl appendNode ns
  | [], b, _ => (modify_id b).symm
  | h :: rest, b, hfits => by
      rw [Html.tokensAll, Html.rawNodesAll, List.foldl_append,
        foldl_stepWritten_tokens h b hfits.1,
        foldl_stepWritten_tokensAll rest _ (by rw [tags_modify]; exact hfits.2),
        modify_modify]
      simp only [Function.comp_def, List.foldl_append]

end

end RawHtml.Builder

namespace Html

/-- The markup of trees side by side is read as what is read for each of them, if they are read as
they stand. -/
theorem fragment_markup_of_fitsAllIn {hs : List Html} (tags : HasSmallTags hs)
    (fits : FitsAllIn [] hs) :
    RawHtml.fragment (Html.fragment none hs).markup = RawHtml.mergeTexts (rawNodesAll hs) := by
  rw [RawHtml.fragment_eq_finish, markup, String.toList_ofList, chars, tokens_charsAll tags,
    RawHtml.Builder.foldl_step_joinTexts (isWritten_of_mem_tokensAll hs tags),
    RawHtml.Builder.foldl_stepWritten_tokensAll hs RawHtml.Builder.start fits]
  exact RawHtml.foldl_appendNode_nil (rawNodesAll hs)

/-- **Written markup is read back.** The markup of a tree is read as the normal form of the tree,
if its tags are tags as they are read, its void elements are empty and it is not nested too
deep. -/
theorem fragment_markup {h : Html} (tags : HasSmallTags [h]) (voids : HasEmptyVoids [h])
    (deep : h.depth ≤ RawHtml.maxDepth) : RawHtml.fragment h.markup = h.normalForm := by
  have hchars : h.markup = (Html.fragment none [h]).markup := by
    rw [markup, markup, chars, charsAll, charsAll, List.append_nil]
  have fits : FitsIn [] h :=
    fitsIn_of_depth_le [] h voids (by rw [List.length_nil, Nat.zero_add]; exact deep)
  rw [hchars, fragment_markup_of_fitsAllIn tags ⟨fits, trivial⟩, rawNodesAll, rawNodesAll,
    List.append_nil, normalForm]

/-- A tree with all that is not written as it stands: texts that meet, a group, characters to
escape, renamed properties, a flag that is off, a void element, and an element in one of its own
tag. -/
def mixed : Html :=
  .element "div" (some "k")
    (OrderedMap.ofList [("className", .text "a\">"), ("hidden", .flag false), ("b c", .text "x"),
      ("Start", .number 7)])
    [.text "1 <", .fragment none [.text " 2 &", .text ""], .element "br" none ∅ [],
      .element "div" none (OrderedMap.ofList [("title", .text "/")]) [.text "/"]]

theorem fragment_markup_mixed :
    HasSmallTags [mixed] ∧ HasEmptyVoids [mixed] ∧ mixed.depth ≤ RawHtml.maxDepth ∧
      RawHtml.fragment mixed.markup =
        [.element "div" [("class", "a\">"), ("start", "7")]
          [.text "1 < 2 &", .element "br" [] [], .element "div" [("title", "/")] [.text "/"]]] := by
  have tags : HasSmallTags [mixed] := by decide
  have voids : HasEmptyVoids [mixed] := by decide
  have deep : mixed.depth ≤ RawHtml.maxDepth := by decide
  refine ⟨tags, voids, deep, (fragment_markup tags voids deep).trans ?_⟩
  rfl

end Html

end DocMarkup
