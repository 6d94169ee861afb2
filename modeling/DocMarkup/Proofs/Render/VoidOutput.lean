import DocMarkup.Proofs.Render.PlainOutput

/-!
# Nodes that hold nothing

Without overrides, some nodes render to nothing: unknown ones, raw content in a format other than
HTML, and captions with nothing in them that renders. Others render to an element that never has
content: images, thematic breaks and hard breaks. All other nodes render to something that can take
more content, or to a text.

## Main definitions

* `Node.vanishes` : whether a node renders to nothing.
* `Node.isVoid` : whether a node renders to an element that never has content.
* `Node.endsInVoid` : whether such an element is the last that nodes render to.

## Main results

* `Render.map_isVoidElement_node` : what a node renders to.
* `Render.lastIsVoid_each` : what nodes end in.
-/

namespace DocMarkup

namespace Html

/-- Whether the tree is an element that never has content. -/
def isVoidElement : Html → Bool
  | element tag .. => isVoid tag
  | text _ | fragment .. => false

/-- Whether the last of the trees is an element that never has content. -/
def lastIsVoid (hs : List Html) : Bool := hs.getLast?.any isVoidElement

end Html

namespace Node

mutual

/-- Whether the node renders to nothing where there are no overrides. -/
def vanishes : Node → Bool
  | container .caption kids _ _ => vanishAll kids
  | raw _ format _ _ => format ≠ "html"
  | unknown => true
  | _ => false

/-- Whether all of the nodes render to nothing where there are no overrides. -/
def vanishAll : List Node → Bool
  | [] => true
  | n :: rest => n.vanishes && vanishAll rest

end

/-- Whether the node renders to an element that never has content. -/
def isVoid : Node → Bool
  | leaf .thematicBreak _ | leaf .hardBreak _ | leaf .hardbreak _ | link .image .. => true
  | _ => false

/-- Whether the last of the nodes that do not vanish renders to an element that never has
content. -/
def endsInVoid (ns : List Node) : Bool := (ns.filter (!·.vanishes)).getLast?.any isVoid

theorem vanishes_container {k : ContainerKind} (h : k ≠ .caption) (kids : List Node)
    (attrs auto : Attributes) : (container k kids attrs auto).vanishes = false := by
  cases k <;> first | rfl | exact absurd rfl h

theorem isEmpty_filter_vanishes (ns : List Node) :
    (ns.filter (!·.vanishes)).isEmpty = vanishAll ns := by
  induction ns with
  | nil => rfl
  | cons n ns ih =>
    rw [vanishAll, ← ih]
    cases h : n.vanishes <;> simp [h]

end Node

namespace Single

open Html

variable {n : Node} {key : Option String}

theorem isVoidElement_element (tag : String) (r : Request) :
    (element ∅ tag r).isVoidElement = isVoid tag := by
  rw [element, Overrides.build, Overrides.pick_empty]
  rfl

theorem isVoidElement_group (r : Request) : (group ∅ r).isVoidElement = false := by
  rw [group, Overrides.build, Overrides.pick_empty]
  rfl

theorem isVoidElement_bareText (kind : Kind) (text : String) (inputs : Inputs) :
    (bareText ∅ kind n key text inputs).isVoidElement = false := by
  rw [bareText, Overrides.build, Overrides.pick_empty]
  rfl

/-- A container is no void element, and nothing only if it is a caption without content. -/
theorem map_isVoidElement_container (k : ContainerKind) (children : List Html) :
    (container ∅ k n key children).map isVoidElement =
      if k = .caption ∧ children = [] then none else some false := by
  have hpick : (Overrides.pick ∅ (.container k)).isNone = true := by
    rw [Overrides.pick_empty]
    rfl
  have htags : ∀ tag, k.tag? = some tag → isVoid tag = false := by
    intro tag htag
    cases k <;> cases htag <;> decide
  unfold container
  dsimp only
  rw [hpick, Bool.and_true]
  by_cases h : k = .caption ∧ children = []
  · simp [h]
  · rw [if_neg h, if_neg (by simpa using h)]
    split
    · rename_i tag htag
      exact congrArg some ((isVoidElement_element tag _).trans (htags tag htag))
    · exact congrArg some (isVoidElement_group _)

theorem isVoidElement_heading (level : UInt32) (children : List Html) :
    (heading ∅ n key level children).isVoidElement = false := by
  have hall : ∀ n < 7, isVoid ("h" ++ Decimal.text n) = false := by decide +kernel
  exact (isVoidElement_element _ _).trans (hall _ (by unfold headingLevel; omega))

theorem isVoidElement_literal (k : LiteralKind) (text : String) :
    (literal ∅ k n key text).isVoidElement = false := by
  cases k with
  | str => exact isVoidElement_bareText _ _ _
  | code | verbatim => exact isVoidElement_element _ _
  | inlineMath | displayMath =>
    rw [literal, math]
    exact isVoidElement_element _ _
  | url | email =>
    rw [literal, autolink]
    exact isVoidElement_element _ _

theorem isVoidElement_leaf (k : LeafKind) (attrs : Attributes) :
    (leaf ∅ k n key).isVoidElement = (Node.leaf k attrs).isVoid := by
  cases k with
  | thematicBreak | hardBreak | hardbreak => exact isVoidElement_element _ _
  | softBreak | softbreak | nonBreakingSpace => exact isVoidElement_bareText _ _ _

theorem map_isVoidElement_raw (k : RawKind) (format text : String) :
    (raw ∅ k n key format text).map isVoidElement =
      if format ≠ "html" then none else some false := by
  by_cases h : format = "html"
  · rw [raw, if_neg (by simp [h]), if_neg (not_not_intro h)]
    exact congrArg some (isVoidElement_group _)
  · rw [raw_of_not_html h, if_pos h]
    rfl

end Single

namespace Render

open Html Single

variable {links : Links} {key : Option String} {tight : Option Bool} {σ : Numbering}

/-- What the output of a node is, if a caption renders to nothing just where its content does. -/
theorem map_isVoidElement_output {n : Node} (hn : n.isDoc = false) {rendered : List (Option Html)}
    (hr : (present rendered).isEmpty = Node.vanishAll (n.content ∅ tight)) :
    (output ⟨∅, links⟩ key tight σ rendered n).map isVoidElement =
      if n.vanishes then none else some n.isVoid := by
  cases n with
  | doc => cases hn
  | container k kids attrs auto =>
    have hcontainer (children : List Html) :
        (container ∅ k (.container k kids attrs auto) key children).map isVoidElement = _ :=
      map_isVoidElement_container k children
    by_cases hitem : k = .listItem
    · subst hitem
      exact congrArg some (isVoidElement_element _ _)
    by_cases hcaption : k = .caption
    · subst hcaption
      change (present rendered).isEmpty = Node.vanishAll kids at hr
      refine (hcontainer _).trans ?_
      rw [Node.vanishes, ← hr]
      simp [Node.isVoid]
    rw [Node.vanishes_container hcaption]
    by_cases htable : k = .table
    · subst htable
      exact hcontainer _
    · rw [output_container htable hitem, hcontainer, if_neg fun h => hcaption h.1]
      rfl
  | heading => exact congrArg some (isVoidElement_heading _ _)
  | cell head =>
    have htag : isVoid (if head = true then "th" else "td") = false := by cases head <;> decide
    exact congrArg some ((isVoidElement_element _ _).trans htag)
  | smartPunctuation | symb => exact congrArg some (isVoidElement_bareText _ _ _)
  | literal k text => exact congrArg some (isVoidElement_literal k text)
  | raw k format text =>
    refine (map_isVoidElement_raw k format text).trans ?_
    by_cases h : format = "html" <;> simp [h, Node.vanishes, Node.isVoid]
  | link k => cases k <;> exact congrArg some (isVoidElement_element _ _)
  | leaf k attrs => exact congrArg some (isVoidElement_leaf k attrs)
  | unknown => rfl
  | _ => exact congrArg some (isVoidElement_element _ _)

theorem map_isVoidElement_each_of {ns : List Node}
    (h : ∀ n ∈ ns, ∀ key σ, (node ⟨∅, links⟩ key tight n σ).1.map isVoidElement =
      if n.vanishes then none else some n.isVoid) (i : Nat) (σ : Numbering) :
    (present (each ⟨∅, links⟩ tight i ns σ).1).map isVoidElement =
      (ns.filter (!·.vanishes)).map Node.isVoid := by
  induction ns generalizing i σ with
  | nil =>
    rw [each_nil]
    rfl
  | cons n ns ih =>
    have hn := h n List.mem_cons_self (some (Decimal.text i)) σ
    rw [each_cons, present_cons, List.map_append, ih fun m hm => h m (List.mem_cons_of_mem n hm),
      ← Option.toList_map, hn]
    cases hv : n.vanishes <;> simp [hv]

/-- **What a node renders to**: nothing, a void element, or something else. -/
theorem map_isVoidElement_node (n : Node) :
    (node ⟨∅, links⟩ key tight n σ).1.map isVoidElement =
      if n.vanishes then none else some n.isVoid := by
  induction n using Node.induction_content generalizing key tight σ with
  | step n ih =>
    cases hn : n.isDoc with
    | true =>
      cases n <;> cases hn
      rw [node_doc_run]
      exact congrArg some (isVoidElement_group _)
    | false =>
      rw [node_run hn]
      refine map_isVoidElement_output hn ?_
      rw [← Node.isEmpty_filter_vanishes, ← List.isEmpty_map (f := isVoidElement),
        map_isVoidElement_each_of (fun m hm key σ => ih ∅ tight m hm), List.isEmpty_map]

/-- Nodes end in a void element if the last that does not vanish renders to one. -/
theorem lastIsVoid_each (ns : List Node) (i : Nat) (σ : Numbering) :
    lastIsVoid (present (each ⟨∅, links⟩ tight i ns σ).1) = Node.endsInVoid ns := by
  have h : (present (each ⟨∅, links⟩ tight i ns σ).1).map isVoidElement = _ :=
    map_isVoidElement_each_of (fun n _ key σ => map_isVoidElement_node n) i σ
  have hlast {α : Type} (f : α → Bool) (l : List α) :
      l.getLast?.any f = (l.map f).getLast?.any id := by
    rw [List.getLast?_map, Option.any_map]
    rfl
  rw [lastIsVoid, hlast, h, Node.endsInVoid, ← hlast]

end Render

end DocMarkup
