import DocMarkup.Proofs.Footnote.Citation

/-!
# Places in a tree

A tree that differs from another at one place: at the root, below one of the children of the root,
or in the body of one of its footnotes. All the rest of the two trees is the same. What is at the
place may depend on whether it stands directly in a tight list, so this is handed down.

## Main definitions

* `Node.holding` : a node with other children.
* `Node.Somewhere` : trees that are related at one place and the same elsewhere.
* `Node.isItem`, `Node.isParagraph` : what a tight list renders in its own way.
-/

namespace DocMarkup.Node

/-- The node with other children; a node that holds none stays as it is. -/
def holding (kids : List Node) : Node → Node
  | doc _ attrs refs auto notes => doc kids attrs refs auto notes
  | container k _ attrs auto => container k kids attrs auto
  | heading level _ attrs auto => heading level kids attrs auto
  | row head _ attrs => row head kids attrs
  | cell head align _ attrs => cell head align kids attrs
  | footnote note => footnote { note with children := kids }
  | link k destination reference _ attrs => link k destination reference kids attrs
  | list k tight style _ attrs => list k tight style kids attrs
  | orderedList tight style start _ attrs => orderedList tight style start kids attrs
  | taskListItem checkbox _ attrs => taskListItem checkbox kids attrs
  | n => n

/-- Whether the node is an item of a list. -/
def isItem : Node → Bool
  | container .listItem .. | taskListItem .. => true
  | _ => false

/-- Whether the node is a paragraph. -/
def isParagraph : Node → Bool
  | container .para .. => true
  | _ => false

/-- Trees that are related by `R` at one place and the same everywhere else. The tightness is that
of the list that the node at hand stands in directly, if it does. -/
inductive Somewhere (R : Option Bool → Node → Node → Prop) : Option Bool → Node → Node → Prop
  | here {tight n n'} (h : R tight n n') : Somewhere R tight n n'
  | child {tight m m'} (n : Node) (before after : List Node) (h : Somewhere R n.tightness m m') :
      Somewhere R tight (n.holding (before ++ m :: after)) (n.holding (before ++ m' :: after))
  | body {tight m m'} (kids : List Node) (attrs : Attributes) (refs auto : References)
      (earlier later : List (String × Footnote)) (key label : String) (before after : List Node)
      (own : Attributes) (h : Somewhere R none m m') :
      Somewhere R tight
        (doc kids attrs refs auto
          (earlier ++ (key, ⟨label, before ++ m :: after, own⟩) :: later))
        (doc kids attrs refs auto
          (earlier ++ (key, ⟨label, before ++ m' :: after, own⟩) :: later))

theorem plainCharsAll_eq_flatMap (ns : List Node) :
    plainCharsAll ns = ns.flatMap plainChars := by
  induction ns with
  | nil => rfl
  | cons n ns ih => rw [plainCharsAll, ih, List.flatMap_cons]

/-! ### Other children -/

variable (n : Node) {kids kids' : List Node}

theorem holding_children : n.holding n.children = n := by
  cases n with
  | footnote note => cases note; rfl
  | _ => rfl

theorem isDoc_holding : (n.holding kids).isDoc = n.isDoc := by
  cases n <;> rfl

theorem tightness_holding : (n.holding kids).tightness = n.tightness := by
  cases n <;> rfl

theorem ownLabels_holding : (n.holding kids).ownLabels = n.ownLabels := by
  cases n <;> rfl

theorem props_holding (own : Props) : (n.holding kids).props own = n.props own := by
  cases n <;> rfl

theorem push_holding (t : TableParts) (rendered : Option Html) :
    t.push (n.holding kids) rendered = t.push n rendered := by
  cases n with
  | container k => cases k <;> rfl
  | _ => rfl

theorem cited_holding (h : citedAll kids = citedAll kids') :
    (n.holding kids).cited = (n.holding kids').cited := by
  cases n with
  | link k => cases k <;> first | exact h | rfl
  | _ => first | exact h | rfl

theorem mentions_holding (h : mentionsAll kids = mentionsAll kids') :
    (n.holding kids).mentions = (n.holding kids').mentions := by
  cases n <;> first | exact h | rfl

theorem plainChars_holding (h : plainCharsAll kids = plainCharsAll kids') :
    (n.holding kids).plainChars = (n.holding kids').plainChars := by
  cases n with
  | container k => rw [holding, holding, plainChars, plainChars, h]
  | _ => first | exact h | rfl

/-! ### Items of a tight list -/

theorem itemContent_singleton {m : Node} (h : m.isParagraph = false) (unwrap : Bool) :
    itemContent [m] unwrap = [m] := by
  unfold itemContent
  split
  · rename_i heq
    obtain rfl := (List.cons.inj heq).1
    cases h
  · rfl

/-- Only an only child gives way to its content. -/
theorem itemContent_of_length_ne (h : kids.length ≠ 1) (unwrap : Bool) :
    itemContent kids unwrap = kids := by
  unfold itemContent
  split
  · exact absurd rfl h
  · rfl

theorem itemContent_false (kids : List Node) : itemContent kids false = kids := by
  unfold itemContent
  split
  · rename_i h
    cases h
  · rfl

theorem isParagraph_holding : (n.holding kids).isParagraph = n.isParagraph := by
  cases n with
  | container k => cases k <;> rfl
  | _ => rfl

theorem eq_of_isParagraph {n : Node} (h : n.isParagraph = true) :
    ∃ kids attrs auto, n = container .para kids attrs auto := by
  unfold isParagraph at h
  split at h
  · exact ⟨_, _, _, rfl⟩
  · cases h

theorem tightness_of_isItem {n : Node} (h : n.isItem = true) : n.tightness = none := by
  unfold isItem at h
  split at h
  · rfl
  · rfl
  · cases h

end DocMarkup.Node
