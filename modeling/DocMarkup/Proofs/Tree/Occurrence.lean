import DocMarkup.Proofs.Tree.Descendants

/-!
# Where nodes stand in a tree

A node in a tree together with the nodes that it stands in. All of them are listed in document
order by one walk over children, the same for nodes of all kinds.

## Main definitions

* `Occurrence` : a node where it stands.
* `Node.occurrences` : the nodes of a tree where they stand, in document order.

## Main results

* `Node.occurrences_eq` : the occurrences in a tree from those in its children.
-/

namespace DocMarkup

/-- A node where it stands in a tree. -/
structure Occurrence where
  /-- The nodes that it stands in, the root of the tree first. -/
  above : List Node
  node : Node

/-- The occurrence in a tree that has one more root. -/
def Occurrence.below (n : Node) (o : Occurrence) : Occurrence := ⟨n :: o.above, o.node⟩

namespace Node

/-- The nodes of a tree where they stand, in document order: the root, then what is in its
children. -/
def occurrences (n : Node) : List Occurrence :=
  ⟨[], n⟩ :: n.children.attach.flatMap fun m => m.1.occurrences.map (.below n)
termination_by sizeOf n
decreasing_by exact sizeOf_lt_of_mem_children m.2

theorem occurrences_eq (n : Node) :
    n.occurrences = ⟨[], n⟩ :: n.children.flatMap fun m => m.occurrences.map (.below n) := by
  rw [occurrences]
  conv => rhs; rw [← List.attach_map_subtype_val n.children, List.flatMap_map]

end Node

end DocMarkup
