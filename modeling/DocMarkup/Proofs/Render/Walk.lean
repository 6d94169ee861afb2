import DocMarkup.Proofs.Markup.Subtrees
import DocMarkup.Proofs.Tree.Descendants
import DocMarkup.Render.Document

/-!
# One node of a rendering

Rendering a node is the same for all kinds but documents: what the node itself records comes
first, then the nodes of its content are rendered in order, and then its output is made of what
these render to. Here this is one equation, so that a statement about renderings needs one lemma
on the content of a node and one on its output, and none on the traversal. A document leaves the
numbering alone.

## Main definitions

* `Node.content` : the nodes that are rendered inside a node.
* `Render.output` : the output of a node made of what its content renders to.
* `Render.endnotesOf` : what the endnotes of a document are made from.

## Main results

* `Node.induction_rendered` : induction from what is rendered for a node to the node.
* `Render.node_run` : the rendering of a node that is no document.
* `Render.node_doc_run` : the rendering of a document.
-/

namespace DocMarkup

/-- Whether a paragraph that is the only child of an item gives way to its content. -/
def Overrides.unwraps (ov : Overrides) (kind : Kind) (tight : Option Bool) : Bool :=
  tight = some true && !ov.hasComponent kind

namespace Node

/-- The nodes that are rendered inside a node, where `tight` is the tightness of the list around
it: its children, but none of an image, and the content of an only paragraph of an item in a tight
list. -/
def content (ov : Overrides) (tight : Option Bool) : Node → List Node
  | container .listItem kids _ _ =>
    itemContent kids (ov.unwraps (.container .listItem) tight)
  | taskListItem _ kids _ => itemContent kids (ov.unwraps .taskListItem tight)
  | link .image .. => []
  | n => n.children

/-- The tightness that a node hands to the items in it. -/
def tightness : Node → Option Bool
  | list _ isTight .. => some isTight
  | orderedList isTight .. => some isTight
  | _ => none

/-- The labels that a node refers to itself, not counting what is inside it. -/
def ownLabels : Node → List String
  | footnoteReference label _ => [label]
  | _ => []

theorem ownLabels_eq (n : Node) : n.ownLabels = [] ∨ ∃ label, n.ownLabels = [label] := by
  cases n with
  | footnoteReference label => exact Or.inr ⟨label, rfl⟩
  | _ => exact Or.inl rfl

/-- Whether the node is a document. -/
def isDoc : Node → Bool
  | doc .. => true
  | _ => false

theorem mem_itemContent {m : Node} {kids : List Node} {unwrap : Bool}
    (h : m ∈ itemContent kids unwrap) : m ∈ kids ∨ ∃ k ∈ kids, m ∈ k.children := by
  unfold itemContent at h
  split at h
  · exact Or.inr ⟨_, List.mem_cons_self, h⟩
  · exact Or.inl h

theorem mem_content {ov : Overrides} {tight : Option Bool} {m n : Node}
    (h : m ∈ n.content ov tight) : m ∈ n.children ∨ ∃ k ∈ n.children, m ∈ k.children := by
  unfold content at h
  split at h
  · exact mem_itemContent h
  · exact mem_itemContent h
  · exact absurd h List.not_mem_nil
  · exact Or.inl h

theorem mem_descendants_of_mem_content {ov : Overrides} {tight : Option Bool} {m n : Node}
    (h : m ∈ n.content ov tight) : m ∈ n.descendants ∧ m.descendants ⊆ n.descendants := by
  rcases mem_content h with h | ⟨k, hk, h⟩
  · exact mem_descendants_of_mem_children h
  · obtain ⟨-, hsub⟩ := mem_descendants_of_mem_children hk
    obtain ⟨hm, hbelow⟩ := mem_descendants_of_mem_children h
    exact ⟨hsub hm, fun x hx => hsub (hbelow hx)⟩

theorem sizeOf_lt_of_mem_content {ov : Overrides} {tight : Option Bool} {m n : Node}
    (h : m ∈ n.content ov tight) : sizeOf m < sizeOf n := by
  rcases mem_content h with h | ⟨k, hk, h⟩
  · exact sizeOf_lt_of_mem_children h
  · exact Nat.lt_trans (sizeOf_lt_of_mem_children h) (sizeOf_lt_of_mem_children hk)

/-- A property of all nodes, from what is rendered inside a node to the node. -/
theorem induction_content {P : Node → Prop}
    (step : ∀ n, (∀ ov tight, ∀ m ∈ n.content ov tight, P m) → P n) (n : Node) : P n :=
  step n fun _ _ m _ => induction_content step m
termination_by sizeOf n
decreasing_by exact sizeOf_lt_of_mem_content ‹_›

/-- A property of all nodes, from everything that is rendered for a node to the node. For a
document, the bodies of its footnotes belong to that. -/
theorem induction_rendered {P : Node → Prop}
    (content : ∀ n, n.isDoc = false → (∀ ov tight, ∀ m ∈ n.content ov tight, P m) → P n)
    (document : ∀ kids attrs refs auto notes, (∀ m ∈ kids, P m) →
      (∀ note ∈ notes, ∀ m ∈ Footnote.children note.2, P m) → P (doc kids attrs refs auto notes))
    (n : Node) : P n := by
  cases hn : n.isDoc with
  | false => exact content n hn fun _ _ m _ => induction_rendered content document m
  | true =>
    cases n with
    | doc kids attrs refs auto notes =>
      exact document kids attrs refs auto notes
        (fun m _ => induction_rendered content document m)
        fun note _ m _ => induction_rendered content document m
    | _ => cases hn
termination_by sizeOf n
decreasing_by
  · exact sizeOf_lt_of_mem_content ‹_›
  · exact sizeOf_lt_of_mem_children (n := doc kids attrs refs auto notes) ‹_›
  · exact sizeOf_lt_of_mem_note ‹_› ‹_›

end Node

namespace Render

/-- The output of a node that is no document, made of what its content renders to. `before` is the
numbering before the node. -/
def output (s : Setting) (key : Option String) (tight : Option Bool) (before : Numbering)
    (rendered : List (Option Html)) (n : Node) : Option Html :=
  match n with
  | .doc .. => none
  | .container .table kids _ _ =>
    Single.container s.overrides .table n key (TableParts.ofList (kids.zip rendered)).toList
  | .container .listItem .. =>
    some (Single.item s.overrides (.container .listItem) n key tight none (present rendered))
  | .container k .. => Single.container s.overrides k n key (present rendered)
  | .heading level .. => some (Single.heading s.overrides n key level (present rendered))
  | .row head .. => some (Single.row s.overrides n key head (present rendered))
  | .cell head align .. => some (Single.cell s.overrides n key head align (present rendered))
  | .footnoteReference label _ =>
    some (Single.footnoteReference s.overrides n key label (before.anchor label))
  | .footnote note =>
    some (Single.footnote s.overrides note key ∅ ((before.indexOf? note.label).getD 0) note.label
      (present rendered))
  | .link .link destination reference _ _ =>
    some (Single.link s.overrides s.links n key destination reference (present rendered))
  | .link .image destination reference kids _ =>
    some (Single.image s.overrides s.links n key destination reference kids)
  | .list k isTight .. => some (Single.list s.overrides k n key isTight (present rendered))
  | .orderedList isTight style start _ _ =>
    some (Single.orderedList s.overrides n key isTight style start (present rendered))
  | .taskListItem checkbox _ _ =>
    some (Single.item s.overrides .taskListItem n key tight (some checkbox) (present rendered))
  | .smartPunctuation type text _ =>
    some (Single.smartPunctuation s.overrides n key type text)
  | .literal k text _ => some (Single.literal s.overrides k n key text)
  | .codeBlock lang text _ => some (Single.codeBlock s.overrides n key lang text)
  | .raw k format text _ => Single.raw s.overrides k n key format text
  | .symb name _ => some (Single.symb s.overrides n key name)
  | .leaf k _ => some (Single.leaf s.overrides k n key)
  | .unknown => none

variable {s : Setting} {key : Option String} {tight : Option Bool} {σ : Numbering}

theorem present_cons (o : Option Html) (rendered : List (Option Html)) :
    present (o :: rendered) = o.toList ++ present rendered := by
  cases o <;> rfl

theorem allElements_present {P : String → Option String → Props → List Html → Prop}
    {rendered : List (Option Html)} :
    Html.AllElements P (present rendered) ↔ ∀ o ∈ rendered, Html.AllElements P o.toList := by
  induction rendered with
  | nil => simp [present, Html.allElements_nil]
  | cons o rendered ih =>
    rw [present_cons, Html.allElements_append, ih, List.forall_mem_cons]

theorem each_nil {i : Nat} : each s tight i [] σ = ([], σ) := by
  rw [each]
  rfl

/-- Where there is nothing to render there is no output. -/
theorem each_eq_nil {i : Nat} {ns : List Node} (h : ns = []) : (each s tight i ns σ).1 = [] := by
  rw [h, each_nil]

theorem each_cons {i : Nat} {n : Node} {rest : List Node} :
    each s tight i (n :: rest) σ =
      ((node s (some (Decimal.text i)) tight n σ).1 ::
          (each s tight (i + 1) rest (node s (some (Decimal.text i)) tight n σ).2).1,
        (each s tight (i + 1) rest (node s (some (Decimal.text i)) tight n σ).2).2) := by
  rw [each]
  rfl

/-- The output of a container that is neither a table nor an item. -/
theorem output_container {k : ContainerKind} (htable : k ≠ .table) (hitem : k ≠ .listItem)
    (before : Numbering) (rendered : List (Option Html)) (kids : List Node)
    (attrs auto : Attributes) :
    output s key tight before rendered (.container k kids attrs auto) =
      Single.container s.overrides k (.container k kids attrs auto) key (present rendered) := by
  cases k <;> first | rfl | exact absurd rfl htable | exact absurd rfl hitem

/-- The content of an item as it is rendered. -/
theorem itemContent_each (ov : Overrides) (kind : Kind) (kids : List Node) :
    itemContent ov kind tight (present <$> each s none 0 kids)
        (present <$> match kids with
          | [.container .para inner _ _] => each s none 0 inner
          | _ => each s none 0 kids) =
      present <$> each s none 0 (Node.itemContent kids (ov.unwraps kind tight)) := by
  unfold itemContent
  change (if ov.unwraps kind tight = true then _ else _) = _
  cases ov.unwraps kind tight with
  | false =>
    rw [if_neg Bool.false_ne_true]
    unfold Node.itemContent
    split <;> simp_all
  | true =>
    rw [if_pos rfl]
    unfold Node.itemContent
    split
    · rfl
    · split <;> simp_all

/-- **The rendering of a node** that is no document: first the reference that it is itself is
recorded, then its content is rendered, and then its output is made of that. -/
theorem node_run {n : Node} (hn : n.isDoc = false) :
    node s key tight n σ =
      let content := each s n.tightness 0 (n.content s.overrides tight)
        (n.ownLabels.foldl Numbering.record σ)
      (output s key tight σ content.1 n, content.2) := by
  cases n with
  | doc => cases hn
  | container k kids attrs auto =>
    cases k
    case listItem =>
      rw [node.eq_def]
      exact congrArg (fun a : Rendering (List Html) => (some (Single.item s.overrides
        (.container .listItem) (.container .listItem kids attrs auto) key tight none (a σ).1),
          (a σ).2)) (itemContent_each s.overrides (.container .listItem) kids)
    all_goals rw [node] <;> first | rfl | nofun
  | taskListItem checkbox kids attrs =>
    rw [node.eq_def]
    exact congrArg (fun a : Rendering (List Html) => (some (Single.item s.overrides
      .taskListItem (.taskListItem checkbox kids attrs) key tight (some checkbox) (a σ).1),
        (a σ).2)) (itemContent_each s.overrides .taskListItem kids)
  | link k => cases k <;> rw [node] <;> rfl
  | footnote note =>
    obtain ⟨label, kids, attrs⟩ := note
    rw [node]
    rfl
  | _ => rw [node]; rfl

/-- What the endnotes of a document are made from, for the document as a node. -/
def endnotesOf (ov : Overrides) (kids : List Node) (attrs : Attributes) (refs auto : References)
    (notes : List (String × Footnote)) : Endnotes :=
  ⟨ov, .doc kids attrs refs auto notes, notes, bodies ⟨ov, ⟨refs, auto⟩⟩ notes,
    labelBound kids notes⟩

/-- **The rendering of a document**: its content under a numbering of what it mentions, then its
endnotes. The numbering around it is left alone. -/
theorem node_doc_run (kids : List Node) (attrs : Attributes) (refs auto : References)
    (notes : List (String × Footnote)) :
    node s key tight (.doc kids attrs refs auto notes) σ =
      let content := each ⟨s.overrides, ⟨refs, auto⟩⟩ none 0 kids
        (Numbering.ofLabels (Node.mentionsAll kids))
      let endnotes := (endnotesOf s.overrides kids attrs refs auto notes).render content.2
      (some (Single.group s.overrides (Single.request .doc (.doc kids attrs refs auto notes) key ∅
        {} (present content.1 ++ endnotes.1.toList))), σ) := by
  rw [node]
  rfl

end Render

end DocMarkup
