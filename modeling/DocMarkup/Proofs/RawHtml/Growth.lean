import DocMarkup.Proofs.RawHtml.OpenStack

/-!
# How trees of raw HTML grow

A tree of raw HTML grows at the end of its innermost open element. So a property of nodes side by
side holds of the whole tree if it holds of no nodes and is kept when a text or an element is put
behind nodes that have it. Where an element goes is known then: it stands in less than `maxDepth`
open elements if it holds something, and is no void element.

## Main definitions

* `RawHtml.Token.Gives` : what a token puts into a tree has a property.
* `RawHtml.Grows` : a property that nodes keep while they grow.
* `RawHtml.Builder.Holds` : such a property holds in all parts of a tree under construction.

## Main results

* `RawHtml.Builder.Holds.foldl_step` : it is kept by any tokens.
* `RawHtml.Grows.fragment` : it holds of the tree of a text.
-/

namespace DocMarkup.RawHtml

/-- The text that a token is has a property, or the element that it starts. -/
def Token.Gives (T : String → Prop) (P : String → List (String × String) → Prop) : Token → Prop
  | text s => T (String.ofList (Entity.decodeChars s))
  | lessThan => T "<"
  | startTag name attributes _ => P (String.ofList name) (attributeList attributes)
  | endTag _ => True

/-- A property of nodes side by side inside so many elements that they keep while they grow, if the
texts and the elements that are put behind them have properties of their own. -/
structure Grows (T : String → Prop) (P : String → List (String × String) → Prop)
    (Q : Nat → List RawNode → Prop) : Prop where
  nil : ∀ depth, Q depth []
  text : ∀ {depth ns s}, T s → Q depth ns → Q depth (appendText ns s)
  /-- An element that holds nothing can stand everywhere. -/
  empty : ∀ {depth ns tag attrs}, depth ≤ maxDepth → P tag attrs → Q depth ns →
    Q depth (ns ++ [.element tag attrs []])
  element : ∀ {depth ns tag attrs kids}, depth < maxDepth → Html.isVoid tag = false →
    P tag attrs → Q (depth + 1) kids → Q depth ns → Q depth (ns ++ [.element tag attrs kids])

variable {T : String → Prop} {P : String → List (String × String) → Prop}
  {Q : Nat → List RawNode → Prop}

/-- Open elements, from the innermost outwards, of which each can hold something, stands inside
those after it and has children with the property so far. -/
def AllOpen (P : String → List (String × String) → Prop) (Q : Nat → List RawNode → Prop) :
    List OpenElement → Prop
  | [] => True
  | e :: outer =>
    (outer.length < maxDepth ∧ Html.isVoid e.tag = false ∧ P e.tag e.attributes ∧
      Q (outer.length + 1) e.children) ∧ AllOpen P Q outer

/-- There is room for elements that are open. -/
theorem AllOpen.length_le {es : List OpenElement} (h : AllOpen P Q es) : es.length ≤ maxDepth := by
  cases es with
  | nil => exact Nat.zero_le _
  | cons e outer => exact h.1.1

namespace Builder

/-- A property holds in all parts of a tree under construction. -/
structure Holds (P : String → List (String × String) → Prop) (Q : Nat → List RawNode → Prop)
    (b : Builder) : Prop where
  top : Q 0 b.top
  opened : AllOpen P Q b.opened

namespace Holds

variable {b : Builder}

theorem start (hnil : Q 0 []) : Holds P Q Builder.start := ⟨hnil, trivial⟩

theorem modify (H : Holds P Q b) {f : List RawNode → List RawNode}
    (hf : ∀ ns, Q b.opened.length ns → Q b.opened.length (f ns)) : Holds P Q (b.modify f) := by
  rcases b with ⟨top, _ | ⟨e, outer⟩⟩
  · exact ⟨hf top H.top, trivial⟩
  · obtain ⟨⟨hdepth, hvoid, hP, hkids⟩, houter⟩ := H.opened
    exact ⟨H.top, ⟨hdepth, hvoid, hP, hf e.children hkids⟩, houter⟩

theorem close (G : Grows T P Q) (H : Holds P Q b) : Holds P Q b.close := by
  rcases b with ⟨top, _ | ⟨e, outer⟩⟩
  · exact H
  · obtain ⟨⟨hdepth, hvoid, hP, hkids⟩, houter⟩ := H.opened
    have hrest : Holds P Q ⟨top, outer⟩ := ⟨H.top, houter⟩
    exact hrest.modify fun ns hns => G.element hdepth hvoid hP hkids hns

theorem closeMany (G : Grows T P Q) (H : Holds P Q b) (n : Nat) : Holds P Q (closeMany n b) := by
  induction n generalizing b with
  | zero => exact H
  | succ n ih => exact ih (H.close G)

theorem openElement (G : Grows T P Q) (H : Holds P Q b) {tag : String}
    {attrs : List (String × String)} (hP : P tag attrs) (selfClosing : Bool) :
    Holds P Q (b.openElement tag attrs selfClosing) := by
  unfold Builder.openElement
  split
  · exact H.modify fun ns hns => G.empty H.opened.length_le hP hns
  · rename_i h
    simp only [Bool.or_eq_true, decide_eq_true_eq, not_or, Bool.not_eq_true, Nat.not_le] at h
    exact ⟨H.top, ⟨h.2, h.1.2, hP, G.nil _⟩, H.opened⟩

/-- One more token keeps the property. -/
theorem step (G : Grows T P Q) (H : Holds P Q b) {t : Token} (ht : t.Gives T P) :
    Holds P Q (b.step t) := by
  cases t with
  | text s => exact H.modify fun ns hns => G.text ht hns
  | lessThan => exact H.modify fun ns hns => G.text ht hns
  | startTag name attributes selfClosing => exact H.openElement G ht selfClosing
  | endTag name =>
    simp only [Builder.step, closeElement]
    split
    · exact H.closeMany G _
    · exact H

/-- **Any tokens keep the property.** -/
theorem foldl_step (G : Grows T P Q) (H : Holds P Q b) {ts : List Token}
    (hts : ∀ t ∈ ts, t.Gives T P) : Holds P Q (ts.foldl Builder.step b) := by
  induction ts generalizing b with
  | nil => exact H
  | cons t ts ih =>
    exact ih (H.step G (hts t List.mem_cons_self)) fun u hu => hts u (List.mem_cons_of_mem t hu)

end Holds

end Builder

/-- **What nodes keep while they grow holds of the tree of a text**, if all its tokens give what it
asks for. -/
theorem Grows.fragment (G : Grows T P Q) {s : String} (h : ∀ t ∈ tokens s.toList, t.Gives T P) :
    Q 0 (fragment s) := by
  rw [fragment_eq_finish]
  exact (((Builder.Holds.start (G.nil 0)).foldl_step G h).closeMany G _).top

end DocMarkup.RawHtml
