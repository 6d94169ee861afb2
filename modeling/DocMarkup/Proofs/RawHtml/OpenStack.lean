import DocMarkup.RawHtml.Fragment

/-!
# The stack of open elements

While raw HTML is read, the elements that are open stand on a root, and every operation needs an
entry to work on. Seen from the outside the root never changes places: a tree under construction is
a list of finished nodes at the top and the elements that are open, and no operation on it can fail.
Both are the same thing. So the root stays at the bottom of the stack, and what is built can be
followed without it.

## Main definitions

* `RawHtml.Builder` : a tree under construction, and the operations on it.
* `RawHtml.Builder.stack` : the stack that it is.

## Main results

* `RawHtml.Builder.step?_stack`, `RawHtml.Builder.run?_stack` : tokens do the same to both.
* `RawHtml.fragment_eq_finish` : the tree of a text as what is built of its tokens.
-/

namespace DocMarkup.RawHtml

/-- A tree under construction: the finished nodes at the top, and the open elements from the
innermost outwards. -/
structure Builder where
  top : List RawNode
  opened : List OpenElement

namespace Builder

/-- The start of a tree. -/
def start : Builder := ⟨[], []⟩

/-- Changes the children of the innermost open element, or the top if none is open. -/
def modify (b : Builder) (f : List RawNode → List RawNode) : Builder :=
  match b.opened with
  | [] => { b with top := f b.top }
  | e :: outer => { b with opened := { e with children := f e.children } :: outer }

/-- Adds a finished node. -/
def add (b : Builder) (n : RawNode) : Builder := b.modify (· ++ [n])

/-- Adds a text. -/
def addText (b : Builder) (s : String) : Builder := b.modify fun nodes => appendText nodes s

/-- Closes the innermost open element. -/
def close (b : Builder) : Builder :=
  match b.opened with
  | [] => b
  | e :: outer => add { b with opened := outer } (.element e.tag e.attributes e.children)

/-- Closes the `n` innermost open elements. -/
def closeMany (n : Nat) (b : Builder) : Builder :=
  match n with
  | 0 => b
  | n + 1 => closeMany n b.close

/-- Opens an element, or adds it at once if it cannot hold anything. -/
def openElement (b : Builder) (tag : String) (attributes : List (String × String))
    (selfClosing : Bool) : Builder :=
  if selfClosing || Html.isVoid tag || maxDepth ≤ b.opened.length then
    b.add (.element tag attributes [])
  else { b with opened := ⟨tag, attributes, []⟩ :: b.opened }

/-- Closes the innermost open element of the tag and all inside it, if there is one. -/
def closeElement (b : Builder) (tag : String) : Builder :=
  match b.opened.findIdx? (·.tag = tag) with
  | some i => closeMany (i + 1) b
  | none => b

/-- Takes one more token. -/
def step (b : Builder) : Token → Builder
  | .text s => b.addText (String.ofList (Entity.decodeChars s))
  | .lessThan => b.addText "<"
  | .startTag name attributes selfClosing =>
    b.openElement (String.ofList name) (attributeList attributes) selfClosing
  | .endTag name => b.closeElement (String.ofList name)

/-- The finished nodes, all elements closed. -/
def finish (b : Builder) : List RawNode := (closeMany b.opened.length b).top

/-- The tree as a stack: the open elements with the root below them. -/
def stack (b : Builder) : OpenStack := b.opened ++ [⟨"", [], b.top⟩]

variable {b : Builder}

theorem opened_length_modify (b : Builder) (f : List RawNode → List RawNode) :
    (b.modify f).opened.length = b.opened.length := by
  rcases b with ⟨top, _ | ⟨e, outer⟩⟩ <;> rfl

theorem length_opened_close (b : Builder) : b.close.opened.length = b.opened.length - 1 := by
  rcases b with ⟨top, _ | ⟨e, outer⟩⟩
  · rfl
  · exact opened_length_modify _ _

theorem length_opened_closeMany (n : Nat) (b : Builder) :
    (closeMany n b).opened.length = b.opened.length - n := by
  induction n generalizing b with
  | zero => rfl
  | succ n ih => rw [closeMany, ih, length_opened_close, Nat.sub_sub, Nat.add_comm]

/-- No element is open once so many are closed as were open. -/
theorem opened_closeMany_length (b : Builder) : (closeMany b.opened.length b).opened = [] := by
  rw [← List.length_eq_zero_iff, length_opened_closeMany, Nat.sub_self]

/-! ### The same on the stack -/

theorem length_stack (b : Builder) : b.stack.length = b.opened.length + 1 := List.length_append

theorem modify?_stack (b : Builder) (f : List RawNode → List RawNode) :
    b.stack.modify? f = some (b.modify f).stack := by
  rcases b with ⟨top, _ | ⟨e, outer⟩⟩ <;> rfl

theorem add?_stack (b : Builder) (n : RawNode) : b.stack.add? n = some (b.add n).stack :=
  b.modify?_stack (· ++ [n])

theorem addText?_stack (b : Builder) (s : String) :
    b.stack.addText? s = some (b.addText s).stack :=
  b.modify?_stack fun nodes => appendText nodes s

theorem close?_stack (h : 0 < b.opened.length) : b.stack.close? = some b.close.stack := by
  rcases b with ⟨top, _ | ⟨e, outer⟩⟩
  · exact absurd h (Nat.lt_irrefl 0)
  · exact add?_stack ⟨top, outer⟩ _

/-- Elements can be closed as long as there are some on the root. -/
theorem closeMany?_stack {n : Nat} (h : n ≤ b.opened.length) :
    b.stack.closeMany? n = some (closeMany n b).stack := by
  induction n generalizing b with
  | zero => rfl
  | succ n ih =>
    rw [OpenStack.closeMany?, close?_stack (Nat.lt_of_lt_of_le (Nat.succ_pos n) h),
      Option.bind_some, closeMany]
    refine ih ?_
    rw [length_opened_close]
    exact Nat.le_sub_one_of_lt h

/-- One more token does the same to the stack. -/
theorem step?_stack (b : Builder) (t : Token) : b.stack.step? t = some (b.step t).stack := by
  cases t with
  | text s => exact b.addText?_stack _
  | lessThan => exact b.addText?_stack _
  | startTag name attributes selfClosing =>
    rw [OpenStack.step?, OpenStack.openElement?, step, openElement, length_stack]
    simp only [Nat.lt_succ_iff]
    split
    · exact b.add?_stack _
    · rfl
  | endTag name =>
    have hdrop : b.stack.dropLast = b.opened := List.dropLast_concat
    rw [OpenStack.step?, OpenStack.closeElement?, step, closeElement, hdrop]
    cases hi : b.opened.findIdx? (·.tag = String.ofList name) with
    | none => rfl
    | some i =>
      obtain ⟨hlt, -⟩ := List.findIdx?_eq_some_iff_getElem.1 hi
      have hcount : b.stack.length - (b.stack.length - (i + 1)) = i + 1 := by
        rw [length_stack]
        omega
      exact (congrArg (b.stack.closeMany? ·) hcount).trans (closeMany?_stack hlt)

/-- **Tokens do the same to the stack**, one after the other. -/
theorem run?_stack (b : Builder) (ts : List Token) :
    b.stack.run? ts = some (ts.foldl step b).stack := by
  induction ts generalizing b with
  | nil => rfl
  | cons t ts ih =>
    rw [OpenStack.run?, List.foldlM_cons, step?_stack]
    exact ih (b.step t)

/-- The root is left with the tree when everything on it is closed. -/
theorem closeTo?_one_stack (b : Builder) : b.stack.closeTo? 1 = some [⟨"", [], b.finish⟩] := by
  have hstack : (closeMany b.opened.length b).stack = [⟨"", [], b.finish⟩] := by
    rw [stack, opened_closeMany_length, finish]
    rfl
  rw [OpenStack.closeTo?, length_stack, Nat.add_sub_cancel, closeMany?_stack (Nat.le_refl _),
    hstack]

end Builder

/-- The tree of a text is what is built of its tokens. -/
theorem fragment_eq_finish (s : String) :
    fragment s = ((tokens s.toList).foldl Builder.step Builder.start).finish := by
  have hrun := Builder.start.run?_stack (tokens s.toList)
  rw [fragment, show OpenStack.start = Builder.start.stack from rfl, hrun, Option.bind_some,
    OpenStack.finish?, Builder.closeTo?_one_stack]
  rfl

end DocMarkup.RawHtml
