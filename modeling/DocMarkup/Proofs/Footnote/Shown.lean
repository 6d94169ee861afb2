import DocMarkup.Proofs.Footnote.Citation
import DocMarkup.Proofs.Render.PlainOutput

/-!
# References that an output shows

Which references to footnotes stand in the output of a tree, by their labels: those in the tree in
document order, except that a table shows only its first caption, and its rows before everything
else, and that an image shows nothing of its content. All of them are recorded when the tree is
rendered; those in a caption that is not shown are recorded too.

In the output of a tree without raw HTML whose attributes leave identifiers, links and roles alone,
the elements with a role are these references. Each shows the number that its label has in the
order of footnotes, however far the order grows afterwards.

## Main definitions

* `Node.shown`, `Node.shownAll` : the labels of the references in an output.
* `Landmark.reference` : the landmark of a reference, from the order of footnotes.

## Main results

* `Render.landmarks_node`, `Render.landmarks_each` : the landmarks of an output.
-/

namespace DocMarkup

namespace Node

/-! ### The labels that are shown -/

mutual

/-- The labels of the references that the output of a tree shows, in order. -/
def shown : Node → List String
  | footnoteReference label _ => [label]
  | doc .. | link .image .. => []
  | container .table kids _ _ => (tableOrder (kids.zip (shownEach kids))).flatten
  | container _ kids .. => (shownEach kids).flatten
  | heading _ kids .. => (shownEach kids).flatten
  | row _ kids _ => (shownEach kids).flatten
  | cell _ _ kids _ => (shownEach kids).flatten
  | footnote ⟨_, kids, _⟩ => (shownEach kids).flatten
  | link .link _ _ kids _ => (shownEach kids).flatten
  | list _ _ _ kids _ => (shownEach kids).flatten
  | orderedList _ _ _ kids _ => (shownEach kids).flatten
  | taskListItem _ kids _ => (shownEach kids).flatten
  | smartPunctuation .. | literal .. | codeBlock .. | raw .. | symb .. | leaf .. | unknown => []

/-- The labels of the references that the outputs of trees show, tree by tree. -/
def shownEach : List Node → List (List String)
  | [] => []
  | n :: rest => n.shown :: shownEach rest

end

/-- The labels of the references that the outputs of trees side by side show, in order. -/
def shownAll (ns : List Node) : List String := ns.flatMap shown

theorem shownEach_eq_map (ns : List Node) : shownEach ns = ns.map shown := by
  induction ns with
  | nil => rfl
  | cons n ns ih => rw [shownEach, ih, List.map_cons]

theorem flatten_shownEach (ns : List Node) : (shownEach ns).flatten = shownAll ns := by
  rw [shownEach_eq_map, shownAll, List.flatMap_def]

theorem shown_table (kids : List Node) (attrs auto : Attributes) :
    (container .table kids attrs auto).shown =
      (tableOrder (kids.zip (kids.map shown))).flatten := by
  rw [shown, shownEach_eq_map]

theorem shownAll_itemContent (kids : List Node) (unwrap : Bool) :
    shownAll (itemContent kids unwrap) = shownAll kids := by
  unfold itemContent
  split
  · simp [shownAll, shown, flatten_shownEach]
  · rfl

theorem shown_eq {n : Node} (hn : n.isDoc = false) (ht : n.isTable = false) (ov : Overrides)
    (tight : Option Bool) : n.shown = n.ownLabels ++ shownAll (n.content ov tight) := by
  cases n with
  | doc => cases hn
  | container k kids attrs auto =>
    cases k
    case table => cases ht
    case listItem =>
      exact (flatten_shownEach kids).trans (shownAll_itemContent kids _).symm
    all_goals exact flatten_shownEach kids
  | taskListItem checkbox kids attrs =>
    exact (flatten_shownEach kids).trans (shownAll_itemContent kids _).symm
  | link k => cases k <;> first | rfl | exact flatten_shownEach _
  | footnote note => cases note; exact flatten_shownEach _
  | footnoteReference => rfl
  | heading | row | cell | list | orderedList => exact flatten_shownEach _
  | _ => rfl

/-- What an output shows has been recorded. -/
theorem shown_subset_cited (n : Node) : n.shown ⊆ n.cited := by
  induction n using induction_content with
  | step n ih =>
    cases hdoc : n.isDoc with
    | true =>
      cases n <;> cases hdoc
      exact List.nil_subset _
    | false =>
      have hcontent : shownAll (n.content ∅ none) ⊆ citedAll (n.content ∅ none) := by
        rw [citedAll_eq_flatMap, shownAll]
        intro label hl
        obtain ⟨m, hm, hl⟩ := List.mem_flatMap.1 hl
        exact List.mem_flatMap.2 ⟨m, hm, ih ∅ none m hm hl⟩
      cases htable : n.isTable with
      | false =>
        rw [shown_eq hdoc htable ∅ none, cited_eq hdoc ∅ none]
        exact List.append_subset.2 ⟨List.subset_append_left _ _,
          List.subset_append_of_subset_right _ hcontent⟩
      | true =>
        obtain ⟨kids, attrs, auto, rfl⟩ := eq_of_isTable htable
        rw [shown_table]
        intro label hl
        obtain ⟨ls, hls, hl⟩ := List.mem_flatten.1 hl
        have hmem := tableOrder_subset _ hls
        rw [List.map_snd_zip (by simp)] at hmem
        obtain ⟨m, hm, rfl⟩ := List.mem_map.1 hmem
        exact hcontent (List.mem_flatMap.2 ⟨m, hm, hl⟩)

theorem shownAll_subset_citedAll (ns : List Node) : shownAll ns ⊆ citedAll ns := by
  rw [citedAll_eq_flatMap, shownAll]
  intro label hl
  obtain ⟨n, hn, hl⟩ := List.mem_flatMap.1 hl
  exact List.mem_flatMap.2 ⟨n, hn, shown_subset_cited n hl⟩

end Node

/-! ### The landmarks of references -/

/-- The landmark of a reference to the footnote of a label. -/
def Landmark.reference (order : List String) (label : String) : Landmark :=
  .ofNumber (order.idxOf label + 1)

namespace Render

open Html

variable {links : Links} {key : Option String} {tight : Option Bool} {σ : Numbering}
  {order : List String}

/-- The landmarks of siblings, each of whose outputs has the landmarks of its references in every
order that comes after it. -/
theorem map_landmarks_each {ns : List Node}
    (H : ∀ n ∈ ns, ∀ key σ, (node ⟨∅, links⟩ key tight n σ).2.order <+: order →
      landmarks (node ⟨∅, links⟩ key tight n σ).1.toList = n.shown.map (.reference order))
    (i : Nat) (σ : Numbering) (hσ : (each ⟨∅, links⟩ tight i ns σ).2.order <+: order) :
    (each ⟨∅, links⟩ tight i ns σ).1.map (fun h => landmarks h.toList) =
      ns.map fun n => n.shown.map (.reference order) := by
  induction ns generalizing i σ with
  | nil => rw [each_nil]; rfl
  | cons n ns ih =>
    rw [each_cons] at hσ ⊢
    have hn : (node ⟨∅, links⟩ (some (Decimal.text i)) tight n σ).2.order <+: order :=
      (order_prefix_each _ _ _).trans hσ
    rw [List.map_cons, List.map_cons, H n List.mem_cons_self _ _ hn,
      ih (fun m hm => H m (List.mem_cons_of_mem n hm)) _ _ hσ]

theorem landmarks_present (rendered : List (Option Html)) :
    landmarks (present rendered) = (rendered.map fun h => landmarks h.toList).flatten :=
  (collect_present rendered).trans List.flatMap_def

/-- The number that a reference shows when it is rendered is that of its label in every order that
comes after it was recorded. -/
theorem ofNumber_eq_reference {n : Node}
    (hσ : (n.ownLabels.foldl Numbering.record σ).order <+: order) :
    ∀ label ∈ n.ownLabels, Landmark.ofNumber (σ.index label) = .reference order label := by
  intro label hlabel
  obtain hnil | ⟨l, hl⟩ := n.ownLabels_eq
  · rw [hnil] at hlabel
    cases hlabel
  · rw [hl] at hσ hlabel
    cases List.mem_singleton.1 hlabel
    rw [Numbering.index_eq_of_prefix hσ, Landmark.reference]

/-- **The landmarks of an output** are its references, each with the number of its label in every
order that comes after. -/
theorem landmarks_node (hl : links.IsPlain) (n : Node) (hn : n.isPlain = true)
    (hbelow : ∀ m ∈ n.descendants, m.isPlain = true)
    (hσ : (node ⟨∅, links⟩ key tight n σ).2.order <+: order) :
    landmarks (node ⟨∅, links⟩ key tight n σ).1.toList = n.shown.map (.reference order) := by
  induction n using Node.induction_content generalizing key tight σ with
  | step n ih =>
    have hdoc := Node.isDoc_of_isPlain hn
    rw [node_run hdoc] at hσ ⊢
    have hrecord : (n.ownLabels.foldl Numbering.record σ).order <+: order :=
      (order_prefix_each _ _ _).trans hσ
    have hcontent := map_landmarks_each (fun m hm key σ h => by
      obtain ⟨hmem, hsub⟩ := Node.mem_descendants_of_mem_content hm
      exact ih _ _ m hm (hbelow m hmem) (fun k hk => hbelow k (hsub hk)) h) 0 _ hσ
    cases htable : n.isTable with
    | false =>
      rw [landmarks_output hl hn htable each_eq_nil, landmarks_present, hcontent,
        Node.shown_eq hdoc htable ∅ tight, List.map_append, Node.shownAll, List.map_flatMap,
        List.flatMap_def, List.map_congr_left (ofNumber_eq_reference hrecord)]
    | true =>
      obtain ⟨kids, attrs, auto, rfl⟩ := Node.eq_of_isTable htable
      rw [landmarks_output_table hn, List.flatMap_def, ← tableOrder_zip_map, hcontent,
        Node.shown_table, List.map_flatten, ← tableOrder_zip_map, List.map_map]
      rfl

/-- The landmarks of the outputs of siblings are their references. -/
theorem landmarks_each (hl : links.IsPlain) {ns : List Node}
    (hns : ∀ n ∈ Node.forest ns, n.isPlain = true) (i : Nat)
    (hσ : (each ⟨∅, links⟩ tight i ns σ).2.order <+: order) :
    landmarks (present (each ⟨∅, links⟩ tight i ns σ).1) =
      (Node.shownAll ns).map (.reference order) := by
  have hplain : ∀ n ∈ ns, n.isPlain = true ∧ ∀ m ∈ n.descendants, m.isPlain = true :=
    fun n hn => ⟨hns n (Node.mem_forest_of_mem hn),
      fun m hm => hns m (Node.descendants_subset_forest hn hm)⟩
  rw [landmarks_present, map_landmarks_each (fun n hn key σ h =>
    landmarks_node hl n (hplain n hn).1 (hplain n hn).2 h) i σ hσ, Node.shownAll, List.map_flatMap,
    List.flatMap_def]

end Render

end DocMarkup
