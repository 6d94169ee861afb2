import DocMarkup.Proofs.Footnote.Order
import DocMarkup.Proofs.Render.Walk

/-!
# References that a rendering records

Which references a rendering records depends on the tree alone: not on overrides, not on the
numbering before and not on the lists around. They are the references in the tree in document
order, without those in the content of images, which is only used as text, and without those in
documents inside, which keep a numbering of their own.

## Main definitions

* `Node.cited`, `Node.citedAll` : the labels of the recorded references.

## Main results

* `Render.node_snd`, `Render.each_snd` : the numbering after a rendering.
* `Node.cited_subset_mentions` : no label is recorded that is not mentioned.
-/

namespace DocMarkup

namespace Node

mutual

/-- The labels of the references that are recorded when a tree is rendered, in order. -/
def cited : Node → List String
  | footnoteReference label _ => [label]
  | doc .. | link .image .. => []
  | container _ kids .. => citedAll kids
  | heading _ kids .. => citedAll kids
  | row _ kids _ => citedAll kids
  | cell _ _ kids _ => citedAll kids
  | footnote ⟨_, kids, _⟩ => citedAll kids
  | link .link _ _ kids _ => citedAll kids
  | list _ _ _ kids _ => citedAll kids
  | orderedList _ _ _ kids _ => citedAll kids
  | taskListItem _ kids _ => citedAll kids
  | smartPunctuation .. | literal .. | codeBlock .. | raw .. | symb .. | leaf .. | unknown => []

/-- The labels of the references that are recorded when trees are rendered one after the other. -/
def citedAll : List Node → List String
  | [] => []
  | n :: rest => n.cited ++ citedAll rest

end

theorem citedAll_eq_flatMap (ns : List Node) : citedAll ns = ns.flatMap cited := by
  induction ns with
  | nil => rfl
  | cons n ns ih => rw [citedAll, ih, List.flatMap_cons]

theorem mentionsAll_eq_flatMap (ns : List Node) : mentionsAll ns = ns.flatMap mentions := by
  induction ns with
  | nil => rfl
  | cons n ns ih => rw [mentionsAll, ih, List.flatMap_cons]

theorem citedAll_itemContent (kids : List Node) (unwrap : Bool) :
    citedAll (itemContent kids unwrap) = citedAll kids := by
  unfold itemContent
  split
  · simp [citedAll, cited]
  · rfl

theorem cited_eq {n : Node} (hn : n.isDoc = false) (ov : Overrides) (tight : Option Bool) :
    n.cited = n.ownLabels ++ citedAll (n.content ov tight) := by
  cases n with
  | doc => cases hn
  | container k kids attrs auto =>
    cases k
    case listItem => exact (citedAll_itemContent kids _).symm
    all_goals rfl
  | taskListItem checkbox kids attrs => exact (citedAll_itemContent kids _).symm
  | link k => cases k <;> rfl
  | footnote note => cases note; rfl
  | _ => rfl

theorem mentions_eq (n : Node) : n.mentions = n.ownLabels ++ mentionsAll n.children := by
  cases n with
  | footnote note => cases note; rfl
  | _ => rfl

theorem cited_subset (n : Node) : n.cited ⊆ n.ownLabels ++ citedAll n.children := by
  cases n with
  | doc => exact List.nil_subset _
  | link k => cases k <;> first | exact List.nil_subset _ | exact List.Subset.refl _
  | footnote note => cases note; exact List.Subset.refl _
  | _ => exact List.Subset.refl _

/-- No label is recorded that is not mentioned. -/
theorem cited_subset_mentions (n : Node) : n.cited ⊆ n.mentions := by
  induction n using induction_children with
  | step n ih =>
    intro label hl
    rw [mentions_eq, mentionsAll_eq_flatMap, List.mem_append, List.mem_flatMap]
    have hl := cited_subset n hl
    rw [citedAll_eq_flatMap, List.mem_append, List.mem_flatMap] at hl
    exact hl.imp_right fun ⟨m, hm, h⟩ => ⟨m, hm, ih m hm h⟩

theorem citedAll_subset_mentionsAll (ns : List Node) : citedAll ns ⊆ mentionsAll ns := by
  rw [citedAll_eq_flatMap, mentionsAll_eq_flatMap]
  intro label hl
  obtain ⟨n, hn, hl⟩ := List.mem_flatMap.1 hl
  exact List.mem_flatMap.2 ⟨n, hn, cited_subset_mentions n hl⟩

end Node

namespace Render

variable {s : Setting} {key : Option String} {tight : Option Bool} {σ : Numbering}

theorem each_snd_of {ns : List Node}
    (H : ∀ n ∈ ns, ∀ key σ, (node s key tight n σ).2 = n.cited.foldl Numbering.record σ)
    (i : Nat) (σ : Numbering) :
    (each s tight i ns σ).2 = (Node.citedAll ns).foldl Numbering.record σ := by
  induction ns generalizing i σ with
  | nil => rw [each_nil]; rfl
  | cons n ns ih =>
    rw [each_cons, Node.citedAll, List.foldl_append, H n List.mem_cons_self,
      ih fun m hm => H m (List.mem_cons_of_mem n hm)]

/-- The numbering after a node: its references are recorded. -/
theorem node_snd (n : Node) (s : Setting) (key : Option String) (tight : Option Bool)
    (σ : Numbering) : (node s key tight n σ).2 = n.cited.foldl Numbering.record σ := by
  induction n using Node.induction_content generalizing s key tight σ with
  | step n ih =>
    cases hn : n.isDoc with
    | true =>
      cases n <;> cases hn
      rw [node]
      rfl
    | false =>
      rw [node_run hn, Node.cited_eq hn s.overrides tight, List.foldl_append]
      exact each_snd_of (fun m hm key σ => ih _ _ m hm s key _ σ) 0 _

/-- The numbering after siblings: their references are recorded. -/
theorem each_snd (ns : List Node) (i : Nat) :
    (each s tight i ns σ).2 = (Node.citedAll ns).foldl Numbering.record σ :=
  each_snd_of (fun n _ key σ => node_snd n s key tight σ) i σ

/-- No label loses its number while siblings are rendered. -/
theorem order_prefix_each (ns : List Node) (i : Nat) (σ : Numbering) :
    σ.order <+: (each s tight i ns σ).2.order := by
  rw [each_snd]
  exact Numbering.order_prefix_foldl_record _ _

end Render

end DocMarkup
