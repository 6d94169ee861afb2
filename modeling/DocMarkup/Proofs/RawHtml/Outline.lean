import DocMarkup.Proofs.RawHtml.RoundTrip

/-!
# Trees of raw HTML keep their tokens

Building a tree from tokens loses nothing, doubles nothing and moves nothing: the tree, read from
its first node to its last, is the sequence of its start tags and texts. End tags decide only where
an element ends, and this cannot be seen in such a reading; so it makes no difference whether tags
match, cross, are left open or are nested too deep.

## Main definitions

* `RawHtml.Item` : what is met in raw HTML, an element where it starts or a text.
* `RawHtml.RawNode.outline`, `RawHtml.Token.outline` : what is met in a node, and what a token says.
* `RawHtml.joined` : items with the texts that meet made one.

## Main results

* `RawHtml.outline_fragment` : the tree of a text is read as the tokens of the text.
-/

namespace DocMarkup.RawHtml

/-- What is met in raw HTML that is read from its start to its end. -/
inductive Item where
  /-- An element, where it starts. -/
  | element (tag : String) (attributes : List (String × String))
  | text (s : String)
  deriving DecidableEq, Repr

namespace RawNode

mutual

/-- What is met in a node: an element where it starts, then what is inside it. -/
def outline : RawNode → List Item
  | element tag attrs kids => .element tag attrs :: outlineAll kids
  | text s => [.text s]

/-- What is met in nodes side by side. -/
def outlineAll : List RawNode → List Item
  | [] => []
  | n :: rest => n.outline ++ outlineAll rest

end

theorem outlineAll_append (ns ms : List RawNode) :
    outlineAll (ns ++ ms) = outlineAll ns ++ outlineAll ms := by
  induction ns with
  | nil => rfl
  | cons n ns ih => rw [List.cons_append, outlineAll, outlineAll, ih, List.append_assoc]

theorem outlineAll_singleton (n : RawNode) : outlineAll [n] = n.outline := List.append_nil _

end RawNode

/-- What a token says: a start tag that an element starts, a text its characters, and an end tag
nothing. -/
def Token.outline : Token → List Item
  | text s => [.text (String.ofList (Entity.decodeChars s))]
  | lessThan => [.text "<"]
  | startTag name attributes _ => [.element (String.ofList name) (attributeList attributes)]
  | endTag _ => []

/-! ### Texts that meet -/

/-- An item in front of items: a text becomes part of a text at their start. -/
def Item.before : Item → List Item → List Item
  | .text s, .text t :: rest => .text (s ++ t) :: rest
  | i, is => i :: is

/-- Items with the texts that meet made one. -/
def joined (is : List Item) : List Item := is.foldr Item.before []

/-- Two texts in front of items are the text of both. -/
theorem before_text_before_text (s t : String) (is : List Item) :
    (Item.text s).before ((Item.text t).before is) = (Item.text (s ++ t)).before is := by
  cases is with
  | nil => rfl
  | cons i is =>
    cases i with
    | element => rfl
    | text u => simp only [Item.before, String.append_assoc]

/-- Items that are read as others, whatever follows them, once the texts that meet are one. -/
def ReadAs (is js : List Item) : Prop := ∀ rest, joined (is ++ rest) = joined (js ++ rest)

namespace ReadAs

variable {is js ks : List Item}

theorem refl (is : List Item) : ReadAs is is := fun _ => rfl

theorem trans (h : ReadAs is js) (h' : ReadAs js ks) : ReadAs is ks := fun rest =>
  (h rest).trans (h' rest)

theorem append_left (before : List Item) (h : ReadAs is js) :
    ReadAs (before ++ is) (before ++ js) := fun rest => by
  have hrest := h rest
  simp only [joined, List.append_assoc, List.foldr_append] at hrest ⊢
  rw [hrest]

theorem append_right (h : ReadAs is js) (after : List Item) :
    ReadAs (is ++ after) (js ++ after) := fun rest => by
  rw [List.append_assoc, List.append_assoc, h]

end ReadAs

/-- A text added to nodes is read where it was added, even if it became part of a text there. -/
theorem readAs_appendText (ns : List RawNode) (s : String) :
    ReadAs (RawNode.outlineAll (appendText ns s)) (RawNode.outlineAll ns ++ [.text s]) := by
  fun_induction appendText ns s with
  | case1 => exact .refl _
  | case2 t => exact fun rest => (before_text_before_text t s (joined rest)).symm
  | case3 n ns _ ih =>
    rw [RawNode.outlineAll, RawNode.outlineAll, List.append_assoc]
    exact ih.append_left n.outline

/-! ### Trees under construction -/

/-- What is met in an open element so far. -/
def OpenElement.outline (e : OpenElement) : List Item :=
  .element e.tag e.attributes :: RawNode.outlineAll e.children

namespace Builder

/-- What is met in a tree under construction: first the finished nodes at the top, then the open
elements from the outermost inwards. -/
def outline (b : Builder) : List Item :=
  RawNode.outlineAll b.top ++ b.opened.reverse.flatMap OpenElement.outline

theorem outline_cons (top : List RawNode) (e : OpenElement) (outer : List OpenElement) :
    outline ⟨top, e :: outer⟩ = outline ⟨top, outer⟩ ++ e.outline := by
  simp [outline, List.append_assoc]

variable {b : Builder}

/-- What is put at the end of the innermost open element is met last. -/
theorem readAs_modify {f : List RawNode → List RawNode} {is : List Item}
    (hf : ∀ ns, ReadAs (RawNode.outlineAll (f ns)) (RawNode.outlineAll ns ++ is)) :
    ReadAs (b.modify f).outline (b.outline ++ is) := by
  rcases b with ⟨top, _ | ⟨e, outer⟩⟩
  · simpa [modify, outline] using hf top
  · rw [outline_cons, List.append_assoc]
    change ReadAs (outline ⟨top, { e with children := f e.children } :: outer⟩) _
    rw [outline_cons]
    exact ((hf e.children).append_left [.element e.tag e.attributes]).append_left _

theorem outline_add (b : Builder) (n : RawNode) : (b.add n).outline = b.outline ++ n.outline := by
  have hn (ns : List RawNode) :
      RawNode.outlineAll (ns ++ [n]) = RawNode.outlineAll ns ++ n.outline := by
    rw [RawNode.outlineAll_append, RawNode.outlineAll_singleton]
  rcases b with ⟨top, _ | ⟨e, outer⟩⟩
  · simp [add, modify, outline, hn]
  · change outline ⟨top, { e with children := e.children ++ [n] } :: outer⟩ = _
    rw [outline_cons, outline_cons, List.append_assoc, OpenElement.outline, hn]
    rfl

/-- Closing an element moves nothing: what is open is met last as it is. -/
theorem outline_close (b : Builder) : b.close.outline = b.outline := by
  rcases b with ⟨top, _ | ⟨e, outer⟩⟩
  · rfl
  · rw [close, outline_cons, outline_add]
    rfl

theorem outline_closeMany (n : Nat) (b : Builder) : (closeMany n b).outline = b.outline := by
  induction n generalizing b with
  | zero => rfl
  | succ n ih => rw [closeMany, ih, outline_close]

/-- **One more token is met last**, wherever it goes. -/
theorem readAs_step (b : Builder) (t : Token) :
    ReadAs (b.step t).outline (b.outline ++ t.outline) := by
  cases t with
  | text s => exact readAs_modify fun ns => readAs_appendText ns _
  | lessThan => exact readAs_modify fun ns => readAs_appendText ns _
  | startTag name attributes selfClosing =>
    rw [step, openElement]
    split
    · rw [outline_add]
      exact .refl _
    · rw [outline_cons]
      exact .refl _
  | endTag name =>
    rw [step, closeElement, Token.outline, List.append_nil]
    split
    · rw [outline_closeMany]
      exact .refl _
    · exact .refl _

theorem readAs_foldl_step (ts : List Token) (b : Builder) :
    ReadAs (ts.foldl step b).outline (b.outline ++ ts.flatMap Token.outline) := by
  induction ts generalizing b with
  | nil =>
    rw [List.flatMap_nil, List.append_nil]
    exact .refl _
  | cons t ts ih =>
    rw [List.foldl_cons, List.flatMap_cons, ← List.append_assoc]
    exact (ih _).trans ((readAs_step b t).append_right _)

/-- Once all elements are closed, nothing is met but the finished nodes. -/
theorem outlineAll_finish (b : Builder) : RawNode.outlineAll b.finish = b.outline := by
  rw [← outline_closeMany b.opened.length b, outline, opened_closeMany_length, finish]
  exact (List.append_nil _).symm

end Builder

theorem readAs_fragment (s : String) :
    ReadAs (RawNode.outlineAll (fragment s)) ((tokens s.toList).flatMap Token.outline) := by
  rw [fragment_eq_finish, Builder.outlineAll_finish]
  exact Builder.readAs_foldl_step _ _

/-- **The tree of a text is read as the tokens of the text.** Up to texts that meet, what is met in
the tree is what the tokens say, in the same order. -/
theorem outline_fragment (s : String) :
    joined (RawNode.outlineAll (fragment s)) = joined ((tokens s.toList).flatMap Token.outline) := by
  have h := readAs_fragment s []
  rwa [List.append_nil, List.append_nil] at h

end DocMarkup.RawHtml
