import DocMarkup.Markup.Html
import DocMarkup.RawHtml.Token

/-!
# Trees of raw HTML

Raw HTML as a tree, whatever its tags. An end tag closes the innermost open element of its name
with all that was opened inside; one that matches nothing is passed over; what is open at the end
is closed there. Void elements and tags with a closing slash never hold anything, and neither does
an element that would be nested too deep. Texts that meet become one.

## Main definitions

* `RawHtml.RawNode` : the trees.
* `RawHtml.OpenStack` : the open elements, with the root of the tree at the bottom.
* `RawHtml.fragment` : the tree of a text.
-/

namespace DocMarkup.RawHtml

/-- A node of raw HTML: names in small letters, character references replaced. -/
inductive RawNode where
  | element (tag : String) (attributes : List (String × String)) (children : List RawNode)
  | text (s : String)

/-- How deep elements are nested at most. -/
def maxDepth : Nat := 512

/-- An element that is still open, with its children so far. -/
structure OpenElement where
  tag : String
  attributes : List (String × String)
  children : List RawNode

/-- Nodes with a text after them, which becomes part of a text at their end. -/
def appendText (nodes : List RawNode) (s : String) : List RawNode :=
  match nodes with
  | [] => [.text s]
  | [.text t] => [.text (t ++ s)]
  | n :: rest => n :: appendText rest s

/-- The elements that are open, from the innermost outwards. The last one is the root, whose
children are the nodes at the top. What is done needs an entry to be done to, and fails if there is
none. -/
abbrev OpenStack := List OpenElement

namespace OpenStack

/-- The root alone. -/
def start : OpenStack := [⟨"", [], []⟩]

/-- Changes the children of the innermost entry. -/
def modify? (f : List RawNode → List RawNode) : OpenStack → Option OpenStack
  | [] => none
  | e :: outer => some ({ e with children := f e.children } :: outer)

/-- Adds a finished node. -/
def add? (n : RawNode) : OpenStack → Option OpenStack := modify? (· ++ [n])

/-- Adds a text. -/
def addText? (s : String) : OpenStack → Option OpenStack := modify? fun nodes => appendText nodes s

/-- Takes the innermost entry off and adds it to the next one. -/
def close? : OpenStack → Option OpenStack
  | [] => none
  | e :: outer => add? (.element e.tag e.attributes e.children) outer

/-- Closes the `n` innermost entries. -/
def closeMany? : Nat → OpenStack → Option OpenStack
  | 0, stack => some stack
  | n + 1, stack => stack.close?.bind (closeMany? n)

/-- Closes entries as long as there are more than `len`. -/
def closeTo? (len : Nat) (stack : OpenStack) : Option OpenStack :=
  closeMany? (stack.length - len) stack

/-- Opens an element, or adds it at once if it cannot hold anything. -/
def openElement? (tag : String) (attributes : List (String × String)) (selfClosing : Bool)
    (stack : OpenStack) : Option OpenStack :=
  if selfClosing || Html.isVoid tag || maxDepth < stack.length then
    stack.add? (.element tag attributes [])
  else some (⟨tag, attributes, []⟩ :: stack)

/-- Closes the innermost element of the tag and all inside it, if there is one. The root does not
count: what is closed are the entries down to those below the one that is found. -/
def closeElement? (tag : String) (stack : OpenStack) : Option OpenStack :=
  match stack.dropLast.findIdx? (·.tag = tag) with
  | some i => stack.closeTo? (stack.length - (i + 1))
  | none => some stack

/-- Takes one more token. -/
def step? (stack : OpenStack) : Token → Option OpenStack
  | .text s => stack.addText? (String.ofList (Entity.decodeChars s))
  | .lessThan => stack.addText? "<"
  | .startTag name attributes selfClosing =>
    stack.openElement? (String.ofList name) (attributeList attributes) selfClosing
  | .endTag name => stack.closeElement? (String.ofList name)

/-- Takes tokens one after the other. -/
def run? (ts : List Token) (stack : OpenStack) : Option OpenStack := ts.foldlM step? stack

/-- The children of the root, everything else being closed. -/
def finish? (stack : OpenStack) : Option (List RawNode) :=
  (stack.closeTo? 1).map fun stack => (stack.head?.map (·.children)).getD []

end OpenStack

/-- The tree of a text; what is built never fails. -/
def fragment (s : String) : List RawNode :=
  ((OpenStack.start.run? (tokens s.toList)).bind OpenStack.finish?).getD []

end DocMarkup.RawHtml
