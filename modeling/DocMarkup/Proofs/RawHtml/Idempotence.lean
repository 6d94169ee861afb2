import DocMarkup.Proofs.RawHtml.AttributesAgain
import DocMarkup.Proofs.RawHtml.Listing
import DocMarkup.Proofs.RawHtml.Nesting

/-!
# Markup that is sanitized again

The markup of sanitized raw HTML is raw HTML itself. Sanitizing it drops nothing more, and as long
as no element that is nested too deep clashes with one around it, each element is read where it
stood. So the markup stays the same just if every style in it has steady names.

## Main definitions

* `RawHtml.sanitizedMarkup` : the markup of a text once it is sanitized.
* `Html.HasSteadyStyles` : trees with styles of steady names only.

## Main results

* `RawHtml.sanitizedMarkup_sanitizedMarkup_iff` : when sanitizing again changes nothing.
* `RawHtml.sanitizedMarkup_tooDeep_ne` : a clash changes the markup.
-/

namespace DocMarkup

/-- All styles in the trees have names that start with neither a capital nor a blank. -/
abbrev Html.HasSteadyStyles (hs : List Html) : Prop :=
  Html.AllElements (fun _ _ props _ => ∀ e ∈ props.entries, e.2.IsSteady) hs

namespace RawHtml

open Html (readProperties)

/-! ### Elements that are sanitized again -/

/-- A tag with properties as they come from sanitizing: the tag is not blocked, and the properties
are those of attributes with small names. -/
def IsSanitized (tag : String) (props : Props) : Prop :=
  Hazard.isBlocked tag = false ∧ ∃ attrs, HasSmallNames attrs ∧ props = sanitizeAttributes attrs

theorem allElements_isSanitized (source key : String) :
    Html.AllElements (fun tag _ props _ => IsSanitized tag props) (sanitize source key) :=
  allElements_sanitizeNodes (P := fun _ attrs => HasSmallNames attrs)
    (fun _ attrs _ _ hsmall hb => ⟨hb, attrs, hsmall, rfl⟩) key 0 _
    (allElements_fragment fun _ attrs _ _ => hasSmallNames_attributeList attrs)

/-- What is written for a node once it is sanitized; keys are not written. -/
def cleanChars (n : RawNode) : List Char := Html.charsAll (sanitizeNode? "" 0 n).toList

mutual

theorem charsAll_sanitizeNode? (key : String) (i : Nat) :
    (n : RawNode) → Html.charsAll (sanitizeNode? key i n).toList = cleanChars n
  | .text s => rfl
  | .element tag attrs kids => by
      rw [cleanChars, sanitizeNode?, sanitizeNode?]
      split
      · rfl
      · simp only [Option.toList, Html.charsAll, Html.chars,
          charsAll_sanitizeNodes (childKey key i) 0 kids,
          charsAll_sanitizeNodes (childKey "" 0) 0 kids]

theorem charsAll_sanitizeNodes (key : String) (i : Nat) :
    (ns : List RawNode) → Html.charsAll (sanitizeNodes key i ns) = ns.flatMap cleanChars
  | [] => rfl
  | n :: rest => by
      rw [sanitizeNodes, Html.charsAll_append, charsAll_sanitizeNode? key i n,
        charsAll_sanitizeNodes key (i + 1) rest, List.flatMap_cons]

end

theorem cleanChars_text (s : String) : cleanChars (.text s) = Html.escapeChars s.toList :=
  List.append_nil _

/-- Making texts one does not change what is written. -/
theorem flatMap_cleanChars_mergeTexts (ns : List RawNode) :
    (mergeTexts ns).flatMap cleanChars = ns.flatMap cleanChars := by
  have hprepend (s : String) (ns : List RawNode) :
      (prependRawText s ns).flatMap cleanChars =
        Html.escapeChars s.toList ++ ns.flatMap cleanChars := by
    unfold prependRawText
    split
    · rw [List.flatMap_cons, List.flatMap_cons, cleanChars_text, cleanChars_text,
        String.toList_append, Html.escapeChars_append, List.append_assoc]
    · split
      · rename_i hs
        rw [hs]
        rfl
      · rw [List.flatMap_cons, cleanChars_text]
  induction ns with
  | nil => rfl
  | cons n ns ih =>
    cases n with
    | text s => rw [mergeTexts, hprepend, List.flatMap_cons, cleanChars_text, ih]
    | element tag attrs kids => exact congrArg (cleanChars (.element tag attrs kids) ++ ·) ih

/-- Sanitizing what is read for an element changes nothing that is written of its tag. -/
def IsFixed (tag : String) (props : Props) : Prop :=
  Hazard.isBlocked tag = false ∧
    Html.attributes (sanitizeAttributes (readProperties props)) = Html.attributes props

mutual

theorem flatMap_cleanChars_rawNodes :
    (h : Html) → Html.AllElements (fun tag _ props _ => IsFixed tag props) [h] →
      h.rawNodes.flatMap cleanChars = h.chars
  | .text s, _ => by
      rw [Html.rawNodes, List.flatMap_singleton, cleanChars_text, Html.chars]
  | .fragment _ kids, H => flatMap_cleanChars_rawNodesAll kids (Html.allElements_fragment.1 H)
  | .element tag key props kids, H => by
      obtain ⟨⟨hb, hattrs⟩, hkids⟩ := Html.allElements_element.1 H
      rw [Html.rawNodes, List.flatMap_singleton, cleanChars, sanitizeNode?, hb,
        if_neg Bool.false_ne_true]
      simp only [Option.toList, Html.charsAll, Html.chars, hattrs, charsAll_sanitizeNodes,
        flatMap_cleanChars_mergeTexts, flatMap_cleanChars_rawNodesAll kids hkids, List.append_nil]

/-- What is read for trees is written as they are, if sanitizing it changes none of their
elements. -/
theorem flatMap_cleanChars_rawNodesAll :
    (hs : List Html) → Html.AllElements (fun tag _ props _ => IsFixed tag props) hs →
      (Html.rawNodesAll hs).flatMap cleanChars = Html.charsAll hs
  | [], _ => rfl
  | h :: rest, H => by
      rw [Html.rawNodesAll, List.flatMap_append, Html.charsAll,
        flatMap_cleanChars_rawNodes h (Html.allElements_cons.1 H).1,
        flatMap_cleanChars_rawNodesAll rest (Html.allElements_cons.1 H).2]

end

/-- An element as it is written and read once it is sanitized. -/
def again (e : String × List (String × String)) : String × List (String × String) :=
  (e.1, readProperties (sanitizeAttributes e.2))

mutual

theorem writtenElementsAll_sanitizeNode? (key : String) (i depth : Nat) :
    (n : RawNode) → n.IsCapped depth → (∀ e ∈ elementsOf [n], Hazard.isBlocked e.1 = false) →
      Html.writtenElementsAll (sanitizeNode? key i n).toList = (elementsOf [n]).map again
  | .text s, _, _ => rfl
  | .element tag attrs kids, hcap, hb => by
      rw [elementsOf_element, List.forall_mem_cons] at hb
      rw [elementsOf_element, sanitizeNode?, hb.1, if_neg Bool.false_ne_true]
      simp only [Option.toList, Html.writtenElementsAll, Html.writtenElements, List.append_nil,
        List.map_cons]
      refine congrArg _ ?_
      split
      · rename_i hvoid
        rw [hcap.of_element.1 hvoid]
        rfl
      · exact writtenElementsAll_sanitizeNodes _ 0 (depth + 1) kids hcap.of_element.2 hb.2

/-- The elements that are written for sanitized nodes are those of the nodes, sanitized, if none is
blocked. -/
theorem writtenElementsAll_sanitizeNodes (key : String) (i depth : Nat) :
    (ns : List RawNode) → RawNode.AllCapped depth ns →
      (∀ e ∈ elementsOf ns, Hazard.isBlocked e.1 = false) →
      Html.writtenElementsAll (sanitizeNodes key i ns) = (elementsOf ns).map again
  | [], _, _ => rfl
  | n :: rest, hcap, hb => by
      have hof : elementsOf (n :: rest) = elementsOf [n] ++ elementsOf rest :=
        elementsOf_append [n] rest
      rw [hof, List.forall_mem_append] at hb
      rw [sanitizeNodes, Html.writtenElementsAll_append, hof, List.map_append,
        writtenElementsAll_sanitizeNode? key i depth n hcap.1 hb.1,
        writtenElementsAll_sanitizeNodes key (i + 1) depth rest hcap.2 hb.2]

end

/-! ### Markup that is sanitized again -/

/-- The markup of a text once it is sanitized. -/
def sanitizedMarkup (source key : String) : String :=
  (Html.fragment none (sanitize source key)).markup

theorem sanitizedMarkup_eq (source key : String) :
    sanitizedMarkup source key = String.ofList ((fragment source).flatMap cleanChars) :=
  congrArg String.ofList (charsAll_sanitizeNodes key 0 (fragment source))

theorem elementsOf_fragment_sanitizedMarkup (source key : String) :
    elementsOf (fragment (sanitizedMarkup source key)) =
      Html.writtenElementsAll (sanitize source key) :=
  Html.elementsOf_fragment_markup (hasSmallTags_sanitize source key)

/-- Sanitized raw HTML without clashes is read as it stands. -/
theorem fitsAllIn_sanitize {source key : String}
    (h : Html.clashesAll [] (sanitize source key) = false) :
    Html.FitsAllIn [] (sanitize source key) :=
  fitsAllIn_sanitizeNodes [] key 0 _ (allCapped_fragment source) h

variable {source key : String}

/-- No element is blocked in what is read for sanitized markup. -/
theorem isBlocked_of_mem_elementsOf (fits : Html.FitsAllIn [] (sanitize source key)) :
    ∀ e ∈ elementsOf (fragment (sanitizedMarkup source key)), Hazard.isBlocked e.1 = false :=
  fun e he => by
    rw [elementsOf_fragment_sanitizedMarkup] at he
    obtain ⟨k, props, kids, hsub, -⟩ :=
      (Html.mem_writtenElementsAll_iff (Html.hasEmptyVoids_of_fitsAllIn _ fits)).1 he
    exact (allElements_isSanitized source key _ _ _ _ hsub).1

/-- Markup that stays the same is that of steady styles: its elements are read the same again. -/
theorem hasSteadyStyles_of_sanitizedMarkup_eq (fits : Html.FitsAllIn [] (sanitize source key))
    {key' : String}
    (hm : sanitizedMarkup (sanitizedMarkup source key) key' = sanitizedMarkup source key) :
    Html.HasSteadyStyles (sanitize source key) := by
  intro tag k props kids he
  have hagain : (elementsOf (fragment (sanitizedMarkup source key))).map again =
      (elementsOf (fragment (sanitizedMarkup source key))).map id := by
    calc (elementsOf (fragment (sanitizedMarkup source key))).map again
        = Html.writtenElementsAll (sanitize (sanitizedMarkup source key) key') :=
          (writtenElementsAll_sanitizeNodes key' 0 0 _ (allCapped_fragment _)
            (isBlocked_of_mem_elementsOf fits)).symm
      _ = elementsOf (fragment (sanitizedMarkup (sanitizedMarkup source key) key')) :=
          (elementsOf_fragment_sanitizedMarkup _ _).symm
      _ = (elementsOf (fragment (sanitizedMarkup source key))).map id := by
          rw [hm, List.map_id]
  have hmem : (tag, readProperties props) ∈ elementsOf (fragment (sanitizedMarkup source key)) := by
    rw [elementsOf_fragment_sanitizedMarkup]
    exact (Html.mem_writtenElementsAll_iff (Html.hasEmptyVoids_of_fitsAllIn _ fits)).2
      ⟨k, props, kids, he, rfl⟩
  obtain ⟨-, attrs, hsmall, rfl⟩ := allElements_isSanitized source key _ _ _ _ he
  exact isSteady_of_readProperties_eq hsmall
    (Prod.mk.inj (List.map_inj_left.1 hagain _ hmem)).2

/-- Markup of steady styles stays the same: it is read as it stands, and each attribute is written
as it was. -/
theorem sanitizedMarkup_eq_of_hasSteadyStyles (fits : Html.FitsAllIn [] (sanitize source key))
    (hs : Html.HasSteadyStyles (sanitize source key)) (key' : String) :
    sanitizedMarkup (sanitizedMarkup source key) key' = sanitizedMarkup source key := by
  have hfixed : Html.AllElements (fun tag _ props _ => IsFixed tag props)
      (sanitize source key) := fun tag k props kids he => by
    have hsteady := hs tag k props kids he
    obtain ⟨hb, attrs, hsmall, rfl⟩ := allElements_isSanitized source key _ _ _ _ he
    exact ⟨hb, attributes_sanitizeAttributes_readProperties hsmall hsteady⟩
  have htree : fragment (sanitizedMarkup source key) =
      mergeTexts (Html.rawNodesAll (sanitize source key)) :=
    Html.fragment_markup_of_fitsAllIn (hasSmallTags_sanitize source key) fits
  rw [sanitizedMarkup_eq, htree, flatMap_cleanChars_mergeTexts,
    flatMap_cleanChars_rawNodesAll _ hfixed]
  rfl

/-- **When sanitizing again changes nothing**: the markup of sanitized raw HTML, in which no element
that is nested too deep clashes with one around it, stays the same just if no name of a style in it
starts with a capital or a blank. -/
theorem sanitizedMarkup_sanitizedMarkup_iff (source key key' : String)
    (noClash : Html.clashesAll [] (sanitize source key) = false) :
    sanitizedMarkup (sanitizedMarkup source key) key' = sanitizedMarkup source key ↔
      Html.HasSteadyStyles (sanitize source key) :=
  ⟨hasSteadyStyles_of_sanitizedMarkup_eq (fitsAllIn_sanitize noClash), fun hs =>
    sanitizedMarkup_eq_of_hasSteadyStyles (fitsAllIn_sanitize noClash) hs key'⟩

/-- Raw HTML with what sanitizing changes: a handler, a blocked element between texts, a flag, a
style, an element that is not closed and a character that is escaped. -/
def soiled : String :=
  "<p onclick=\"x\" hidden style=\"margin-top: 1px;color:red\">1 <script>y</script>< 2<br>z"

theorem sanitizedMarkup_soiled :
    Html.clashesAll [] (sanitize soiled "p") = false ∧
      sanitizedMarkup (sanitizedMarkup soiled "p") "q" = sanitizedMarkup soiled "p" := by
  have noClash : Html.clashesAll [] (sanitize soiled "p") = false := by decide +kernel
  have steady : Html.HasSteadyStyles (sanitize soiled "p") := by decide +kernel
  exact ⟨noClash, (sanitizedMarkup_sanitizedMarkup_iff soiled "p" "q" noClash).2 steady⟩

/-! ### An element that clashes -/

/-- Elements `b` inside each other around nodes. -/
def tower : Nat → List RawNode → List RawNode
  | 0, ns => ns
  | n + 1, ns => [.element "b" [] (tower n ns)]

/-- The start tag of `b`. -/
def towerStart : Token := .startTag ['b'] [] false

/-- The end tag of `b`. -/
def towerEnd : Token := .endTag ['b']

theorem tower_succ (n : Nat) (ns : List RawNode) :
    tower (n + 1) ns = tower n [.element "b" [] ns] := by
  induction n with
  | zero => rfl
  | succ n ih => rw [tower, ih, tower]

theorem isWritten_towerStart : towerStart.IsWritten :=
  @Token.IsWritten.startTag ['b'] [] false (by decide) fun _ ha => absurd ha List.not_mem_nil

theorem isWritten_towerEnd : towerEnd.IsWritten := .endTag (by decide)

theorem cleanChars_tower (n : Nat) (ns : List RawNode) :
    (tower n ns).flatMap cleanChars =
      (List.replicate n towerStart).flatMap Token.chars ++ ns.flatMap cleanChars ++
        (List.replicate n towerEnd).flatMap Token.chars := by
  induction n with
  | zero => simp [tower]
  | succ n ih =>
    have hclean : cleanChars (.element "b" [] (tower n ns)) =
        towerStart.chars ++ (tower n ns).flatMap cleanChars ++ towerEnd.chars := by
      rw [cleanChars, sanitizeNode?, if_neg (by decide)]
      have hattrs : Html.attributes (sanitizeAttributes []) = [] := rfl
      simp [Html.charsAll, Html.chars, charsAll_sanitizeNodes, hattrs,
        show Html.isVoid "b" = false by decide, towerStart, towerEnd, Token.chars]
    rw [tower, List.flatMap_singleton, hclean, ih, List.replicate_succ, List.replicate_succ',
      List.flatMap_cons, List.flatMap_append, List.flatMap_singleton]
    simp only [List.append_assoc]

namespace Builder

theorem finish_close (b : Builder) : b.close.finish = b.finish := by
  rcases b with ⟨top, _ | ⟨e, outer⟩⟩
  · rfl
  · rw [finish, length_opened_close]
    rfl

theorem stepWritten_towerStart (b : Builder) :
    b.stepWritten towerStart = b.openElement "b" [] false := by
  rw [stepWritten, if_neg (by decide), towerStart, step, attributeList_nil]

theorem stepWritten_towerEnd (b : Builder) : b.stepWritten towerEnd = b.closeElement "b" := by
  rw [stepWritten, if_neg (by decide)]
  rfl

/-- Elements are opened inside each other as long as they can hold something. -/
theorem foldl_stepWritten_towerStart {n : Nat} (hn : n ≤ maxDepth) :
    (List.replicate n towerStart).foldl stepWritten start =
      ⟨[], List.replicate n ⟨"b", [], []⟩⟩ := by
  induction n with
  | zero => rfl
  | succ n ih =>
    rw [List.replicate_succ', List.foldl_append, ih (Nat.le_of_succ_le hn), List.foldl_cons,
      List.foldl_nil, stepWritten_towerStart,
      openElement_eq (by decide) (by rw [List.length_replicate]; exact hn)]
    rfl

/-- The first element that can hold nothing is put into the last one that can. -/
theorem foldl_stepWritten_towerStart_of_eq {n : Nat} (hn : n + 1 = maxDepth) :
    (List.replicate (n + 2) towerStart).foldl stepWritten start =
      ⟨[], ⟨"b", [], [.element "b" [] []]⟩ :: List.replicate n ⟨"b", [], []⟩⟩ := by
  rw [List.replicate_succ', List.foldl_append, foldl_stepWritten_towerStart (Nat.le_of_eq hn),
    List.foldl_cons, List.foldl_nil, stepWritten_towerStart, openElement, if_pos]
  · rfl
  · rw [List.length_replicate, decide_eq_true (Nat.le_of_eq hn.symm), Bool.or_true]

theorem finish_tower (n : Nat) (ns : List RawNode) :
    finish ⟨[], ⟨"b", [], ns⟩ :: List.replicate n ⟨"b", [], []⟩⟩ = tower (n + 1) ns := by
  induction n generalizing ns with
  | zero => rfl
  | succ n ih =>
    rw [← finish_close, tower_succ]
    exact ih [.element "b" [] ns]

theorem closeElement_head (top : List RawNode) (e : OpenElement) (outer : List OpenElement) :
    closeElement ⟨top, e :: outer⟩ e.tag = close ⟨top, e :: outer⟩ := by
  simp only [closeElement, List.findIdx?_cons, decide_true, if_true, closeMany]

/-- Where only `b` is open, more end tags of it do not matter. -/
theorem finish_foldl_stepWritten_towerEnd (n : Nat) {b : Builder} (h : ∀ tag ∈ b.tags, tag = "b") :
    ((List.replicate n towerEnd).foldl stepWritten b).finish = b.finish := by
  induction n generalizing b with
  | zero => rfl
  | succ n ih =>
    rw [List.replicate_succ, List.foldl_cons, stepWritten_towerEnd]
    rcases b with ⟨top, _ | ⟨e, outer⟩⟩
    · exact ih h
    · have htags : (close ⟨top, e :: outer⟩).tags = outer.map (·.tag) := tags_modify _ _
      rw [← h e.tag List.mem_cons_self, closeElement_head,
        ih (by rw [htags]; exact fun tag ht => h tag (List.mem_cons_of_mem _ ht)), finish_close]

end Builder

/-- Written tokens are read as what they build. -/
theorem fragment_ofList_flatMap_chars {ts : List Token} (hts : ∀ t ∈ ts, t.IsWritten) :
    fragment (String.ofList (ts.flatMap Token.chars)) =
      (ts.foldl Builder.stepWritten Builder.start).finish := by
  rw [fragment_eq_finish, String.toList_ofList, tokens_flatMap_chars hts, Builder.foldl_step_joinTexts hts]

/-- The text `x`. -/
def towerText : Token := .text ['x']

theorem stepWritten_towerText (b : Builder) :
    b.stepWritten towerText = b.modify fun ns => appendNode ns (.text "x") :=
  Builder.stepWritten_text_escapeChars b ['x']

theorem isWritten_tower {l m n : Nat} :
    ∀ t ∈ List.replicate l towerStart ++ (List.replicate m towerEnd ++ towerText ::
      List.replicate n towerEnd), t.IsWritten := by
  intro t ht
  rw [List.mem_append, List.mem_append, List.mem_cons] at ht
  rcases ht with ht | ht | rfl | ht
  · rw [List.eq_of_mem_replicate ht]
    exact isWritten_towerStart
  · rw [List.eq_of_mem_replicate ht]
    exact isWritten_towerEnd
  · exact .text ['x']
  · rw [List.eq_of_mem_replicate ht]
    exact isWritten_towerEnd

/-- Elements `b` are opened inside each other, one more than can hold anything, and a text stands
behind the last of them. -/
theorem fragment_tooDeep {n : Nat} (hn : n + 1 = maxDepth) :
    fragment (String.ofList ((List.replicate (n + 2) towerStart ++ [towerText]).flatMap
      Token.chars)) = tower (n + 1) [.element "b" [] [], .text "x"] := by
  have hwritten := isWritten_tower (l := n + 2) (m := 0) (n := 0)
  rw [List.replicate_zero, List.nil_append] at hwritten
  rw [fragment_ofList_flatMap_chars hwritten, List.foldl_append,
    Builder.foldl_stepWritten_towerStart_of_eq hn, List.foldl_cons, List.foldl_nil,
    stepWritten_towerText]
  exact Builder.finish_tower n _

/-- Read again, the end tag of the element that can hold nothing closes the one around it, and the
text comes to stand outside of that. -/
theorem fragment_tooDeep_again {n : Nat} (hn : n + 2 = maxDepth) :
    fragment (String.ofList ((tower (n + 2) [.element "b" [] [], .text "x"]).flatMap
      cleanChars)) =
      tower (n + 1) [.element "b" [] [.element "b" [] []], .text "x"] := by
  have hkids : ([.element "b" [] [], .text "x"] : List RawNode).flatMap cleanChars =
      towerStart.chars ++ (towerEnd.chars ++ towerText.chars) := by decide
  have hchars : (tower (n + 2) [.element "b" [] [], .text "x"]).flatMap cleanChars =
      (List.replicate (n + 3) towerStart ++ (List.replicate 1 towerEnd ++ towerText ::
        List.replicate (n + 2) towerEnd)).flatMap Token.chars := by
    rw [cleanChars_tower, hkids, List.replicate_succ' (n := n + 2)]
    simp only [List.flatMap_append, List.flatMap_cons, List.flatMap_nil, List.append_assoc,
      List.append_nil, List.replicate_one]
  have honly : ∀ tag ∈ Builder.tags ⟨[], ⟨"b", [], [.element "b" [] [.element "b" [] []],
      .text "x"]⟩ :: List.replicate n ⟨"b", [], []⟩⟩, tag = "b" := by
    intro tag ht
    rw [Builder.tags, List.map_cons, List.map_replicate, List.mem_cons] at ht
    exact ht.elim id List.eq_of_mem_replicate
  have hend : Builder.stepWritten ⟨[], ⟨"b", [], [.element "b" [] []]⟩ ::
      List.replicate (n + 1) ⟨"b", [], []⟩⟩ towerEnd =
      ⟨[], ⟨"b", [], [.element "b" [] [.element "b" [] []]]⟩ ::
        List.replicate n ⟨"b", [], []⟩⟩ :=
    (Builder.stepWritten_towerEnd _).trans (Builder.closeElement_head _ _ _)
  rw [hchars, fragment_ofList_flatMap_chars isWritten_tower, List.foldl_append,
    Builder.foldl_stepWritten_towerStart_of_eq hn]
  simp only [List.foldl_append, List.replicate_one, List.foldl_cons, List.foldl_nil, hend,
    stepWritten_towerText]
  exact (Builder.finish_foldl_stepWritten_towerEnd (n + 2) honly).trans (Builder.finish_tower n _)

/-- An element that is nested too deep and clashes: the markup changes when it is sanitized again. -/
theorem sanitizedMarkup_tooDeep_ne {n : Nat} (hn : n + 2 = maxDepth) (key key' : String) :
    let s := String.ofList ((List.replicate (n + 3) towerStart ++ [towerText]).flatMap Token.chars)
    sanitizedMarkup (sanitizedMarkup s key) key' ≠ sanitizedMarkup s key := by
  intro s hm
  have hfirst : sanitizedMarkup s key =
      String.ofList ((tower (n + 2) [.element "b" [] [], .text "x"]).flatMap cleanChars) := by
    rw [sanitizedMarkup_eq, fragment_tooDeep hn]
  rw [hfirst, sanitizedMarkup_eq, fragment_tooDeep_again hn, String.ofList_inj, tower_succ (n + 1),
    cleanChars_tower, cleanChars_tower, List.append_left_inj, List.append_right_inj] at hm
  exact absurd hm (by decide)

/-- Sanitizing again can change the markup: by a name of a style that starts with a capital, and by
an element that is nested too deep and clashes. -/
theorem sanitizedMarkup_ne :
    sanitizedMarkup (sanitizedMarkup "<p style=\"Color:red\">" "p") "q" ≠
        sanitizedMarkup "<p style=\"Color:red\">" "p" ∧
      sanitizedMarkup (sanitizedMarkup (String.ofList
          ((List.replicate 513 ['<', 'b', '>']).flatten ++ ['x'])) "p") "q" ≠
        sanitizedMarkup (String.ofList
          ((List.replicate 513 ['<', 'b', '>']).flatten ++ ['x'])) "p" := by
  refine ⟨by decide +kernel, ?_⟩
  have h := sanitizedMarkup_tooDeep_ne (n := 510) rfl "p" "q"
  rw [List.flatMap_append, List.flatMap_replicate] at h
  exact h

end RawHtml

end DocMarkup
