import DocMarkup.Tree.Node

/-!
# The nodes in a tree

A tree as the list of all nodes in it, each before those below it. What a tree does not contain
anywhere is said of the members of this list. The footnotes that a document keeps apart do not
count as nodes of it.

## Main definitions

* `Node.descendants` : the nodes below a node.
* `Node.forest` : the nodes of trees side by side.

## Main results

* `Node.induction_children` : induction from the children of a node to the node.
* `Node.induction_nested` : the same with the footnotes that a document keeps apart.
-/

namespace DocMarkup.Node

theorem sizeOf_lt_of_mem_children {m n : Node} (h : m ∈ n.children) : sizeOf m < sizeOf n := by
  cases n with
  | footnote note =>
    obtain ⟨label, kids, attrs⟩ := note
    have hlt := List.sizeOf_lt_of_mem h
    simp [children] at hlt ⊢
    omega
  | _ =>
    first
    | exact absurd h List.not_mem_nil
    | have hlt := List.sizeOf_lt_of_mem h
      simp [children] at hlt ⊢
      omega

/-- A property of all nodes, from a node's children to the node. -/
theorem induction_children {P : Node → Prop} (step : ∀ n, (∀ m ∈ n.children, P m) → P n)
    (n : Node) : P n :=
  step n fun m _ => induction_children step m
termination_by sizeOf n
decreasing_by exact sizeOf_lt_of_mem_children ‹_›

/-- The footnotes that a node keeps apart. -/
def notes : Node → List (String × Footnote)
  | doc _ _ _ _ notes => notes
  | _ => []

theorem sizeOf_lt_of_mem_note {kids : List Node} {attrs : Attributes} {refs auto : References}
    {notes : List (String × Footnote)} {note : String × Footnote} {m : Node}
    (hnote : note ∈ notes) (hm : m ∈ note.2.children) :
    sizeOf m < sizeOf (doc kids attrs refs auto notes) := by
  obtain ⟨label, own, body, noteAttrs⟩ := note
  have hbody := List.sizeOf_lt_of_mem hm
  have hlt := List.sizeOf_lt_of_mem hnote
  simp at hbody hlt ⊢
  omega

/-- A property of all nodes, from the children of a node and of the footnotes that it keeps apart
to the node. -/
theorem induction_nested {P : Node → Prop}
    (step : ∀ n, (∀ m ∈ n.children, P m) →
      (∀ note ∈ n.notes, ∀ m ∈ Footnote.children note.2, P m) → P n) (n : Node) : P n :=
  step n (fun m _ => induction_nested step m) fun note hnote m _ =>
    have : sizeOf m < sizeOf n := by
      cases n with
      | doc => exact sizeOf_lt_of_mem_note hnote ‹_›
      | _ => exact absurd hnote List.not_mem_nil
    induction_nested step m
termination_by sizeOf n
decreasing_by
  · exact sizeOf_lt_of_mem_children ‹_›
  · assumption

mutual

/-- The nodes below a node, in document order. -/
def descendants : Node → List Node
  | doc kids .. => forest kids
  | container _ kids .. => forest kids
  | heading _ kids .. => forest kids
  | row _ kids _ => forest kids
  | cell _ _ kids _ => forest kids
  | footnote ⟨_, kids, _⟩ => forest kids
  | link _ _ _ kids _ => forest kids
  | list _ _ _ kids _ => forest kids
  | orderedList _ _ _ kids _ => forest kids
  | taskListItem _ kids _ => forest kids
  | footnoteReference .. | smartPunctuation .. | literal .. | codeBlock .. | raw .. | symb ..
  | leaf .. | unknown => []

/-- The nodes of trees side by side, in document order. -/
def forest : List Node → List Node
  | [] => []
  | n :: rest => n :: n.descendants ++ forest rest

end

theorem descendants_eq (n : Node) : n.descendants = forest n.children := by
  cases n with
  | footnote note => cases note; rfl
  | _ => rfl

theorem forest_eq_flatMap (ns : List Node) : forest ns = ns.flatMap fun n => n :: n.descendants := by
  induction ns with
  | nil => rfl
  | cons n ns ih => rw [forest, ih, List.flatMap_cons]

theorem mem_forest_of_mem {n : Node} {ns : List Node} (h : n ∈ ns) : n ∈ forest ns := by
  rw [forest_eq_flatMap, List.mem_flatMap]
  exact ⟨n, h, List.mem_cons_self⟩

theorem descendants_subset_forest {n : Node} {ns : List Node} (h : n ∈ ns) :
    n.descendants ⊆ forest ns := by
  intro m hm
  rw [forest_eq_flatMap, List.mem_flatMap]
  exact ⟨n, h, List.mem_cons_of_mem n hm⟩

theorem mem_descendants_of_mem_children {m n : Node} (h : m ∈ n.children) :
    m ∈ n.descendants ∧ m.descendants ⊆ n.descendants := by
  rw [descendants_eq n]
  exact ⟨mem_forest_of_mem h, descendants_subset_forest h⟩

end DocMarkup.Node
