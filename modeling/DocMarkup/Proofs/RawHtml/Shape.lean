import DocMarkup.Proofs.RawHtml.Outline
import DocMarkup.Proofs.RawHtml.Pieces
import Mathlib.Data.List.Chain

/-!
# The shape of raw HTML

Whatever a text is, its tree is tidy: no text in it is empty or follows a text, no element stands
below a deepest level and none holds anything there, void elements hold nothing anywhere, and tags
and attributes have small names. While the tree is built, its open elements stand on a root that is
never closed, and there is always room for them.

## Main definitions

* `RawHtml.RawNode.siblings` : the lists of siblings in a tree, each with its level.
* `RawHtml.IsTidyNode`, `RawHtml.IsTidy` : what nodes and siblings at a level are like.
* `RawHtml.OpenStack.IsRooted` : a stack with the root at its bottom and room for what is on it.
* `RawHtml.OpenStack.EndTag` : what an end tag makes of a stack.
* `RawHtml.WellShaped` : a text whose tree is tidy and is built on a root that stays.

## Main results

* `RawHtml.grows_tidy` : nodes stay tidy while they grow.
* `RawHtml.wellShaped` : every text is well shaped.
-/

namespace DocMarkup.RawHtml

namespace RawNode

mutual

/-- The lists of siblings in a node that stands at a level, each with its own level. -/
def inside (level : Nat) : RawNode → List (Nat × List RawNode)
  | text _ => []
  | element _ _ kids => (level + 1, kids) :: insideAll (level + 1) kids

/-- The lists of siblings in nodes side by side. -/
def insideAll (level : Nat) : List RawNode → List (Nat × List RawNode)
  | [] => []
  | n :: rest => n.inside level ++ insideAll level rest

end

/-- All lists of siblings, from nodes side by side at a level downwards. -/
def siblings (level : Nat) (ns : List RawNode) : List (Nat × List RawNode) :=
  (level, ns) :: insideAll level ns

theorem insideAll_append (level : Nat) (ns ms : List RawNode) :
    insideAll level (ns ++ ms) = insideAll level ns ++ insideAll level ms := by
  induction ns with
  | nil => rfl
  | cons n ns ih => rw [List.cons_append, insideAll, insideAll, ih, List.append_assoc]

theorem insideAll_element (level : Nat) (tag : String) (attrs : List (String × String))
    (kids : List RawNode) : insideAll level [.element tag attrs kids] = siblings (level + 1) kids :=
  List.append_nil _

end RawNode

open RawNode (insideAll siblings)

/-- Names of attributes as they are read. -/
structure IsReadName (name : String) : Prop where
  ne_empty : name ≠ ""
  small : ∀ c ∈ name.toList, c.isUpper = false
  /-- No blank, no quotation mark and no other character that separates attributes. -/
  joined : ∀ c ∈ name.toList,
    Text.isBlank c = false ∧ c ∉ ['"', '\'', '=', '<', '>', '`', '/']

/-- The tag and the attributes of an element are named as they are read. -/
structure IsNamed (tag : String) (attrs : List (String × String)) : Prop where
  isSmallName : isSmallName tag.toList = true
  isReadName : ∀ a ∈ attrs, IsReadName a.1

/-- A node at a level; the level of the top is 1. -/
inductive IsTidyNode (level : Nat) : RawNode → Prop
  | text {s : String} (hs : s ≠ "") : IsTidyNode level (.text s)
  | element {tag : String} {attrs : List (String × String)} {kids : List RawNode}
      (hlevel : level ≤ maxDepth + 1) (hnamed : IsNamed tag attrs)
      (hvoid : tag ∈ ["area", "base", "br", "col", "embed", "hr", "img", "input", "link", "meta",
        "param", "source", "track", "wbr"] → kids = [])
      (hdeepest : level = maxDepth + 1 → kids = []) : IsTidyNode level (.element tag attrs kids)

/-- Siblings at a level: tidy nodes of which no text is followed by a text. -/
structure IsTidy (level : Nat) (ns : List RawNode) : Prop where
  nodes : ∀ n ∈ ns, IsTidyNode level n
  apart : ns.IsChain fun n m => ∀ s t, n = .text s → m ≠ .text t

/-! ### Texts behind nodes -/

/-- A text becomes part of a text in front of it, or stands behind another node or none. -/
theorem appendText_cases (ns : List RawNode) (s : String) :
    (∃ before t, ns = before ++ [.text t] ∧ appendText ns s = before ++ [.text (t ++ s)]) ∨
      (∀ t, ns.getLast? ≠ some (.text t)) ∧ appendText ns s = ns ++ [.text s] := by
  fun_induction appendText ns s with
  | case1 => exact .inr ⟨fun t ht => (by cases ht), rfl⟩
  | case2 t => exact .inl ⟨[], t, rfl, rfl⟩
  | case3 n ns hne ih =>
    rcases ih with ⟨before, t, rfl, h⟩ | ⟨hlast, h⟩
    · exact .inl ⟨n :: before, t, rfl, congrArg (n :: ·) h⟩
    · refine .inr ⟨fun t ht => ?_, congrArg (n :: ·) h⟩
      cases ns with
      | nil =>
        cases ht
        exact hne t rfl rfl
      | cons m ns => exact hlast t (by rwa [List.getLast?_cons_cons] at ht)

theorem insideAll_appendText (level : Nat) (ns : List RawNode) (s : String) :
    insideAll level (appendText ns s) = insideAll level ns := by
  rcases appendText_cases ns s with ⟨before, t, rfl, h⟩ | ⟨-, h⟩
  · rw [h, RawNode.insideAll_append, RawNode.insideAll_append]
    rfl
  · rw [h, RawNode.insideAll_append]
    exact List.append_nil _

namespace IsTidy

variable {level : Nat} {ns : List RawNode}

theorem nil (level : Nat) : IsTidy level [] := ⟨fun _ h => absurd h List.not_mem_nil, .nil⟩

theorem concat (H : IsTidy level ns) {n : RawNode} (hn : IsTidyNode level n)
    (hlast : ∀ m ∈ ns.getLast?, ∀ s t, m = .text s → n ≠ .text t) : IsTidy level (ns ++ [n]) where
  nodes := List.forall_mem_append.2 ⟨H.nodes, List.forall_mem_singleton.2 hn⟩
  apart := List.isChain_append.2 ⟨H.apart, .singleton n, fun m hm _ he => by
    cases he
    exact hlast m hm⟩

theorem appendText (H : IsTidy level ns) {s : String} (hs : s ≠ "") :
    IsTidy level (appendText ns s) := by
  rcases appendText_cases ns s with ⟨before, t, rfl, h⟩ | ⟨hlast, h⟩ <;> rw [h]
  · obtain ⟨hbefore, -, hmeet⟩ := List.isChain_append.1 H.apart
    have Hbefore : IsTidy level before := ⟨(List.forall_mem_append.1 H.nodes).1, hbefore⟩
    have hne : t ++ s ≠ "" := fun he => hs (String.append_eq_empty_iff.1 he).2
    exact Hbefore.concat (.text hne) fun m hm u _ hu _ => hmeet m hm (.text t) rfl u t hu rfl
  · exact H.concat (.text hs) fun m hm u _ hu _ => hlast u (hu ▸ hm)

end IsTidy

/-! ### Nodes stay tidy -/

/-- All siblings are tidy in nodes that stand inside so many elements. -/
def AllTidy (depth : Nat) (ns : List RawNode) : Prop :=
  ∀ g ∈ siblings (depth + 1) ns, IsTidy g.1 g.2

theorem allTidy_iff {depth : Nat} {ns : List RawNode} :
    AllTidy depth ns ↔
      IsTidy (depth + 1) ns ∧ ∀ g ∈ insideAll (depth + 1) ns, IsTidy g.1 g.2 :=
  List.forall_mem_cons

theorem allTidy_nil (depth : Nat) : AllTidy depth [] :=
  allTidy_iff.2 ⟨.nil _, fun _ h => absurd h List.not_mem_nil⟩

theorem AllTidy.concat_element {depth : Nat} {ns kids : List RawNode} {tag : String}
    {attrs : List (String × String)} (H : AllTidy depth ns)
    (he : IsTidyNode (depth + 1) (.element tag attrs kids)) (hkids : AllTidy (depth + 1) kids) :
    AllTidy depth (ns ++ [.element tag attrs kids]) := by
  rw [allTidy_iff] at H ⊢
  rw [RawNode.insideAll_append, RawNode.insideAll_element]
  refine ⟨H.1.concat he fun _ _ _ _ _ hn => ?_, List.forall_mem_append.2 ⟨H.2, hkids⟩⟩
  cases hn

/-- **Nodes stay tidy while they grow.** -/
theorem grows_tidy : Grows (· ≠ "") IsNamed AllTidy where
  nil := allTidy_nil
  text hs H := by
    rw [allTidy_iff] at H ⊢
    rw [insideAll_appendText]
    exact ⟨H.1.appendText hs, H.2⟩
  empty hdepth hnamed H := by
    have he := IsTidyNode.element (Nat.succ_le_succ hdepth) hnamed (fun _ => rfl) fun _ => rfl
    exact H.concat_element he (allTidy_nil _)
  element hdepth hvoid hnamed hkids H := by
    have hlevel := Nat.succ_lt_succ hdepth
    refine H.concat_element (.element (Nat.le_of_lt hlevel) hnamed (fun h => ?_) fun h => ?_) hkids
    · exact absurd (List.contains_iff_mem.2 h) (Bool.eq_false_iff.1 hvoid)
    · exact absurd h (Nat.ne_of_lt hlevel)

/-! ### What tokens give -/

theorem isDelimiter_toLower {c : Char} (h : isDelimiter c = false) :
    isDelimiter c.toLower = false := by
  cases hu : c.isUpper with
  | false => rwa [Text.toLower_eq_self hu]
  | true =>
    have hsmall := Text.isAlpha_toLower (show c.isAlpha = true by simp [Text.isAlpha_eq, hu])
    exact not_isDelimiter (.inl (by simp [Char.isAlphanum, hsmall]))

theorem isReadName_lowered {name : List Char} (hne : name ≠ [])
    (h : ∀ c ∈ name, isDelimiter c = false) : IsReadName (lowered name) where
  ne_empty he := hne (by simpa [lowered] using he)
  small c hc := by
    rw [lowered, String.toList_ofList] at hc
    obtain ⟨d, -, rfl⟩ := List.mem_map.1 hc
    exact Text.isUpper_toLower d
  joined c hc := by
    rw [lowered, String.toList_ofList] at hc
    obtain ⟨d, hd, rfl⟩ := List.mem_map.1 hc
    simpa [isDelimiter, and_assoc] using isDelimiter_toLower (h d hd)

/-- The names that attributes are read with. -/
theorem isReadName_attributeList (s : List Char) : ∀ a ∈ attributeList s, IsReadName a.1 := by
  have hname {c : Char} {rest : List Char} (hc : ¬ isDelimiter c = true) :
      IsReadName (lowered (c :: rest.takeWhile fun d => !isDelimiter d)) := by
    refine isReadName_lowered (List.cons_ne_nil _ _) (List.forall_mem_cons.2 ⟨?_, fun d hd => ?_⟩)
    · exact Bool.eq_false_iff.2 hc
    · simpa using List.mem_takeWhile_imp hd
  rw [attributeList_eq_scanned]
  fun_induction scanned s with
  | case1 => exact fun _ h => absurd h List.not_mem_nil
  | case2 _ _ _ ih => exact ih
  | case3 c rest hc _ _ _ _ _ _ ih => exact List.forall_mem_cons.2 ⟨hname hc, ih⟩
  | case4 c rest hc _ _ _ ih => exact List.forall_mem_cons.2 ⟨hname hc, ih⟩

theorem decodeChars_ne_nil {s : List Char} (h : s ≠ []) : Entity.decodeChars s ≠ [] := by
  obtain ⟨c, s, rfl⟩ := List.exists_cons_of_ne_nil h
  rw [Entity.decodeChars_eq_replace, Entity.replace]
  split
  · split
    · split <;> exact List.cons_ne_nil _ _
    · exact List.cons_ne_nil _ _
  · exact List.cons_ne_nil _ _

/-- The texts that tokens give are not empty, and the elements are named as they are read. -/
theorem gives_of_mem_tokens {s : List Char} {t : Token} (h : t ∈ tokens s) :
    t.Gives (· ≠ "") IsNamed := by
  cases t with
  | text t =>
    have hne := decodeChars_ne_nil (text_ne_nil_of_mem_tokens h)
    exact fun he => hne (by simpa using he)
  | lessThan => exact show "<" ≠ "" by decide
  | startTag name attributes selfClosing =>
    exact ⟨by rw [String.toList_ofList]; exact isSmallName_of_startTag h,
      isReadName_attributeList attributes⟩
  | endTag => trivial

/-! ### The stack of the open elements -/

namespace OpenStack

/-- The root is at the bottom of the stack, and there is room for all that stands on it. -/
structure IsRooted (stack : OpenStack) : Prop where
  length_pos : 0 < stack.length
  length_le : stack.length ≤ maxDepth + 1
  root : ∃ nodes, stack.getLast? = some ⟨"", [], nodes⟩

/-- Entries on top of each other as what they become when they are closed: the first one inside the
second one, and so on. -/
def nested (entries : OpenStack) : List RawNode :=
  entries.foldl (fun kids e => [.element e.tag e.attributes (e.children ++ kids)]) []

/-- What an end tag makes of a stack. -/
inductive EndTag (tag : String) : OpenStack → OpenStack → Prop
  /-- The innermost element of the tag becomes a node inside the entry below it, and so do the
  entries on it inside the element. -/
  | closes {inner outer : OpenStack} {e below : OpenElement} (he : e.tag = tag)
      (hinner : ∀ x ∈ inner, x.tag ≠ tag) :
      EndTag tag (inner ++ e :: below :: outer)
        ({ below with children := below.children ++
            [.element tag e.attributes (e.children ++ nested inner)] } :: outer)
  /-- The root has no tag. -/
  | ignored {stack : OpenStack} (h : ∀ x ∈ stack.dropLast, x.tag ≠ tag) : EndTag tag stack stack

/-- Closing puts entries into each other, and the last of them into the entry below. -/
theorem closeMany?_append (inner outer : OpenStack) (below : OpenElement) :
    closeMany? inner.length (inner ++ below :: outer) =
      some ({ below with children := below.children ++ nested inner } :: outer) := by
  let nest (kids : List RawNode) (e : OpenElement) : List RawNode :=
    [.element e.tag e.attributes (e.children ++ kids)]
  -- Some nodes have already been put into the first entry.
  have hclose (kids : List RawNode) :
      ((inner ++ below :: outer).modify? (· ++ kids)).bind (closeMany? inner.length) =
        some ({ below with children := below.children ++ inner.foldl nest kids } :: outer) := by
    induction inner generalizing kids with
    | nil => rfl
    | cons e inner ih => exact ih (nest kids e)
  have hnone : (inner ++ below :: outer).modify? (· ++ []) = some (inner ++ below :: outer) := by
    cases inner <;> simp [modify?]
  have h := hclose []
  rwa [hnone, Option.bind_some] at h

end OpenStack

namespace Builder

/-- There is always room for the open elements. -/
theorem length_opened_le (ts : List Token) : (ts.foldl step start).opened.length ≤ maxDepth := by
  have G : Grows (fun _ => True) (fun _ _ => True) fun _ _ => True :=
    ⟨fun _ => trivial, fun _ _ => trivial, fun _ _ _ => trivial, fun _ _ _ _ _ => trivial⟩
  have hgives : ∀ t ∈ ts, t.Gives (fun _ => True) fun _ _ => True := fun t _ => by
    cases t <;> trivial
  exact ((Holds.start trivial).foldl_step G hgives).opened.length_le

theorem isRooted_stack {b : Builder} (h : b.opened.length ≤ maxDepth) : b.stack.IsRooted where
  length_pos := by
    rw [length_stack]
    exact Nat.succ_pos _
  length_le := by
    rw [length_stack]
    exact Nat.succ_le_succ h
  root := ⟨b.top, List.getLast?_concat⟩

/-- Closing down to some entries leaves that many, and the root among them. -/
theorem exists_closeTo?_stack {b : Builder} (h : b.opened.length ≤ maxDepth) {len : Nat}
    (hlen : 0 < len) :
    ∃ rest : OpenStack, b.stack.closeTo? len = some rest ∧ rest.IsRooted ∧
      rest.length = min len b.stack.length := by
  have hcount : b.stack.length - len ≤ b.opened.length := by
    rw [length_stack]
    omega
  refine ⟨_, closeMany?_stack hcount, isRooted_stack ?_, ?_⟩
  · rw [length_opened_closeMany]
    exact (Nat.sub_le _ _).trans h
  · rw [length_stack, length_opened_closeMany, length_stack]
    omega

end Builder

namespace OpenStack

/-- What closing an element and all entries on it leaves. -/
theorem closeMany?_nested (inner outer : OpenStack) (e below : OpenElement) :
    closeMany? (inner.length + 1) (inner ++ e :: below :: outer) =
      some ({ below with children := below.children ++
        [.element e.tag e.attributes (e.children ++ nested inner)] } :: outer) := by
  have h := closeMany?_append (inner ++ [e]) outer below
  rwa [List.length_append, List.append_assoc, nested, List.foldl_append] at h

/-- The innermost element of a tag has entries of other tags on it and an entry below. -/
theorem exists_append_of_findIdx? {tag : String} {stack : OpenStack} {i : Nat}
    (h : stack.dropLast.findIdx? (·.tag = tag) = some i) :
    ∃ (inner outer : OpenStack) (e below : OpenElement), stack = inner ++ e :: below :: outer ∧
      inner.length = i ∧ e.tag = tag ∧ ∀ x ∈ inner, x.tag ≠ tag := by
  obtain ⟨hlt, htag, hbefore⟩ := List.findIdx?_eq_some_iff_getElem.1 h
  have hlen : i + 1 < stack.length := by
    rw [List.length_dropLast] at hlt
    omega
  refine ⟨stack.take i, stack.drop (i + 2), stack[i], stack[i + 1], ?_,
    List.length_take_of_le (by omega), by simpa using htag, fun x hx => ?_⟩
  · rw [← List.drop_eq_getElem_cons, ← List.drop_eq_getElem_cons, List.take_append_drop]
  · obtain ⟨j, hj, rfl⟩ := List.mem_take_iff_getElem.1 hx
    simpa using hbefore j (by omega)

/-- An end tag closes the innermost element of the tag, if there is one. -/
theorem endTag_of_closeElement? {tag : String} {stack after : OpenStack}
    (h : stack.closeElement? tag = some after) : EndTag tag stack after := by
  rw [closeElement?] at h
  split at h
  · rename_i i hi
    obtain ⟨inner, outer, e, below, rfl, rfl, rfl, hinner⟩ := exists_append_of_findIdx? hi
    have hlen : inner.length + 1 ≤ (inner ++ e :: below :: outer).length := by simp
    rw [closeTo?, Nat.sub_sub_self hlen, closeMany?_nested] at h
    cases h
    exact .closes rfl hinner
  · rename_i hnone
    cases h
    exact .ignored fun x hx => by simpa using List.findIdx?_eq_none_iff.1 hnone x hx

end OpenStack

/-- A text whose tree is tidy and is built on a root that stays. -/
structure WellShaped (s : String) : Prop where
  /-- Behind each token there is a stack on the root, which is kept while entries are closed. -/
  rooted : ∀ done later, tokens s.toList = done ++ later →
    ∃ stack : OpenStack, OpenStack.start.run? done = some stack ∧ stack.IsRooted ∧
      ∀ len, 0 < len → ∃ rest : OpenStack, stack.closeTo? len = some rest ∧ rest.IsRooted ∧
        rest.length = min len stack.length
  /-- An end tag closes the innermost element of its name with all that stands on it. -/
  endTag : ∀ done name later stack after, tokens s.toList = done ++ .endTag name :: later →
    OpenStack.start.run? done = some stack →
      OpenStack.start.run? (done ++ [.endTag name]) = some after →
        OpenStack.EndTag (String.ofList name) stack after
  /-- When the others are closed at the end, the root is left with the tree. -/
  finish : ∀ stack, OpenStack.start.run? (tokens s.toList) = some stack →
    stack.closeTo? 1 = some [⟨"", [], fragment s⟩]
  tidy : ∀ g ∈ siblings 1 (fragment s), IsTidy g.1 g.2

/-- **Every text is well shaped.** -/
theorem wellShaped (s : String) : WellShaped s where
  rooted done _ _ := by
    have hroom := Builder.length_opened_le done
    exact ⟨_, Builder.start.run?_stack done, Builder.isRooted_stack hroom,
      fun _ => Builder.exists_closeTo?_stack hroom⟩
  endTag done name _ stack after _ hstack hafter := by
    rw [OpenStack.run?, List.foldlM_append, ← OpenStack.run?, hstack] at hafter
    have hstep : stack.step? (.endTag name) = some after := by simpa using hafter
    exact OpenStack.endTag_of_closeElement? hstep
  finish stack hstack := by
    obtain rfl : _ = stack := Option.some.inj ((Builder.start.run?_stack _).symm.trans hstack)
    rw [Builder.closeTo?_one_stack, fragment_eq_finish]
  tidy := grows_tidy.fragment fun _ ht => gives_of_mem_tokens ht

end DocMarkup.RawHtml
