import DocMarkup.Proofs.Footnote.Citation
import DocMarkup.Proofs.Render.PlainTags
import DocMarkup.Proofs.Render.Relabel

/-!
# Nodes that can stand for each other

What a tree renders to depends on a node in it through little: the references that it records and
mentions, its plain text, the part of a table that it belongs to, and its output. Nodes that agree
on these, where outputs count but for keys, can stand for each other anywhere. The proof is one
lemma for the children of a node and one for a document; there is no traversal of trees in it. The
one thing that a node shows beside its output is what is in it, if it is a paragraph that gives way
to its content in an item of a tight list.

## Main definitions

* `Render.SameOutput`, `Render.SameContent` : the same output but for keys.
* `Render.Interchangeable` : nodes that can stand for each other.
* `Render.AllInterchangeable` : siblings that can stand for each other.

## Main results

* `Render.Interchangeable.siblings` : one of several siblings is replaced.
* `Render.AllInterchangeable.holding` : the children of a node are replaced.
* `Render.AllInterchangeable.document` : the children and the footnotes of a document are replaced.
* `Render.Interchangeable.of_somewhere` : a node at one place in a tree is replaced.
-/

namespace DocMarkup.Render

open Html

variable {ov : Overrides} {g : Option String → Option String} {links : Links} {tight : Option Bool}

/-- Nodes with the same output where overrides are `ov`, keys count as far as `g` keeps them, and
the list around has the given tightness. -/
def SameOutput (ov : Overrides) (g : Option String → Option String) (tight : Option Bool)
    (n n' : Node) : Prop :=
  ∀ links key σ, (node ⟨ov, links⟩ key tight n σ).1.map (relabel id g) =
    (node ⟨ov, links⟩ key tight n' σ).1.map (relabel id g)

/-- Siblings with the same outputs side by side. -/
def SameContent (ov : Overrides) (g : Option String → Option String) (tight : Option Bool)
    (ns ns' : List Node) : Prop :=
  ∀ links σ, relabelAll id g (present (each ⟨ov, links⟩ tight 0 ns σ).1) =
    relabelAll id g (present (each ⟨ov, links⟩ tight 0 ns' σ).1)

/-- Nodes that can stand for each other. -/
structure Interchangeable (ov : Overrides) (g : Option String → Option String)
    (tight : Option Bool) (n n' : Node) : Prop where
  cited : n.cited = n'.cited
  mentions : n.mentions = n'.mentions
  plainChars : n.plainChars = n'.plainChars
  push (t : TableParts) (rendered : Option Html) : t.push n rendered = t.push n' rendered
  output : SameOutput ov g tight n n'
  /-- What an item shows of the node if the node is all it holds. Items hand no tightness down. -/
  unwrapped (h : tight = none) :
    SameContent ov g none (Node.itemContent [n] true) (Node.itemContent [n'] true)

/-- Siblings that can stand for each other as the children of a node. -/
structure AllInterchangeable (ov : Overrides) (g : Option String → Option String)
    (tight : Option Bool) (ns ns' : List Node) : Prop where
  cited : Node.citedAll ns = Node.citedAll ns'
  mentions : Node.mentionsAll ns = Node.mentionsAll ns'
  plainChars : Node.plainCharsAll ns = Node.plainCharsAll ns'
  content : SameContent ov g tight ns ns'
  parts (links : Links) (σ : Numbering) :
    (TableParts.ofList (ns.zip (each ⟨ov, links⟩ tight 0 ns σ).1)).relabel id g =
      (TableParts.ofList (ns'.zip (each ⟨ov, links⟩ tight 0 ns' σ).1)).relabel id g

theorem AllInterchangeable.refl (ns : List Node) : AllInterchangeable ov g tight ns ns :=
  ⟨rfl, rfl, rfl, fun _ _ => rfl, fun _ _ => rfl⟩

/-! ### Siblings -/

section Siblings

variable {s : Setting} {i : Nat} {σ : Numbering} {before after : List Node} {m : Node}

theorem length_each (ns : List Node) : (each s tight i ns σ).1.length = ns.length := by
  induction ns generalizing i σ with
  | nil => rw [each_nil]; rfl
  | cons n ns ih => rw [each_cons, List.length_cons, ih, List.length_cons]

theorem each_append (ns ms : List Node) :
    (each s tight i (ns ++ ms) σ).1 = (each s tight i ns σ).1 ++
      (each s tight (i + ns.length) ms ((Node.citedAll ns).foldl Numbering.record σ)).1 := by
  induction ns generalizing i σ with
  | nil => rw [each_nil]; rfl
  | cons n ns ih =>
    rw [List.cons_append, each_cons, each_cons, ih, node_snd, Node.citedAll, List.foldl_append,
      List.length_cons, Nat.add_right_comm, Nat.add_assoc]
    rfl

theorem present_append (rendered rendered' : List (Option Html)) :
    present (rendered ++ rendered') = present rendered ++ present rendered' :=
  List.filterMap_append

/-- A node of a kind that is not known renders to nothing. -/
theorem node_unknown (key : Option String) : (node s key tight .unknown σ).1 = none := by
  rw [node]
  rfl

theorem push_unknown (t : TableParts) : t.push .unknown none = t := by
  change ({ t with other := t.other ++ [] } : TableParts) = t
  rw [List.append_nil]

/-- What siblings render to, cut at one of them. -/
theorem each_append_cons :
    (each s tight i (before ++ m :: after) σ).1 = (each s tight i before σ).1 ++
      (node s (some (Decimal.text (i + before.length))) tight m
          ((Node.citedAll before).foldl Numbering.record σ)).1 ::
        (each s tight (i + before.length + 1) after
          (m.cited.foldl Numbering.record ((Node.citedAll before).foldl Numbering.record σ))).1 := by
  rw [each_append, each_cons, node_snd]

/-- The parts of a table, cut at one of its children. -/
theorem relabel_ofList_append_cons {rendered rendered' : List (Option Html)} {o : Option Html}
    (h : before.length = rendered.length) :
    (TableParts.ofList ((before ++ m :: after).zip (rendered ++ o :: rendered'))).relabel id g =
      (after.zip (rendered'.map (Option.map (relabel id g)))).foldl (fun t c => t.push c.1 c.2)
        (((TableParts.ofList (before.zip rendered)).relabel id g).push m
          (o.map (relabel id g))) := by
  rw [List.zip_append h, TableParts.ofList, List.foldl_append, List.zip_cons_cons, List.foldl_cons,
    TableParts.relabel_foldl_push, TableParts.relabel_push]
  rfl

/-- **One of several siblings is replaced.** -/
theorem Interchangeable.siblings {m' : Node} (h : Interchangeable ov g tight m m')
    (before after : List Node) :
    AllInterchangeable ov g tight (before ++ m :: after) (before ++ m' :: after) where
  cited := by
    simp only [Node.citedAll_eq_flatMap, List.flatMap_append, List.flatMap_cons, h.cited]
  mentions := by
    simp only [Node.mentionsAll_eq_flatMap, List.flatMap_append, List.flatMap_cons, h.mentions]
  plainChars := by
    simp only [Node.plainCharsAll_eq_flatMap, List.flatMap_append, List.flatMap_cons, h.plainChars]
  content links σ := by
    rw [each_append_cons, each_append_cons, present_append, present_append, present_cons,
      present_cons, relabelAll_append, relabelAll_append, relabelAll_append, relabelAll_append,
      relabelAll_toList, relabelAll_toList, h.output, h.cited]
  parts links σ := by
    have hlength : before.length = (each ⟨ov, links⟩ tight 0 before σ).1.length :=
      (length_each before).symm
    rw [each_append_cons, each_append_cons, relabel_ofList_append_cons hlength,
      relabel_ofList_append_cons hlength, h.push, h.output, h.cited]

end Siblings

/-! ### Forgotten keys -/

section Forgotten

variable (hov : ov.onlyTags = true) (hg : ∀ key key', g key = g key')

include hov hg

/-- Where keys are forgotten, a node renders to the same under every key. -/
theorem node_forgotten (n : Node) (key key' : Option String) (σ : Numbering) :
    (node ⟨ov, links⟩ key tight n σ).1.map (relabel id g) =
      (node ⟨ov, links⟩ key' tight n σ).1.map (relabel id g) := by
  cases hn : n.isDoc with
  | false =>
    rw [node_run hn, node_run hn]
    dsimp only
    generalize (each _ n.tightness 0 _ _).1 = rendered
    rw [← n.holding_children]
    exact relabel_output hov rfl (fun _ => rfl) rfl (hg key key')
      fun k text => RawHtml.relabelAll_sanitize hg text _ _
  | true =>
    cases n with
    | doc kids attrs refs auto notes =>
      rw [node_doc_run, node_doc_run]
      exact congrArg some (Single.relabel_group hov rfl (hg key key') rfl _ _ _)
    | _ => cases hn

/-- Where keys are forgotten, siblings render to the same from every place on. -/
theorem each_forgotten (ns : List Node) (i j : Nat) (σ : Numbering) :
    (each ⟨ov, links⟩ tight i ns σ).1.map (Option.map (relabel id g)) =
      (each ⟨ov, links⟩ tight j ns σ).1.map (Option.map (relabel id g)) := by
  induction ns generalizing i j σ with
  | nil => rw [each_nil, each_nil]
  | cons n ns ih =>
    rw [each_cons, each_cons, List.map_cons, List.map_cons, node_snd, node_snd,
      ih (i + 1) (j + 1),
      node_forgotten hov hg n (some (Decimal.text i)) (some (Decimal.text j))]

/-- **A node of a kind that is not known can be left out** among siblings, where keys are
forgotten. -/
theorem allInterchangeable_unknown (before after : List Node) :
    AllInterchangeable ov g tight (before ++ .unknown :: after) (before ++ after) where
  cited := by
    simp only [Node.citedAll_eq_flatMap, List.flatMap_append, List.flatMap_cons]
    rfl
  mentions := by
    simp only [Node.mentionsAll_eq_flatMap, List.flatMap_append, List.flatMap_cons]
    rfl
  plainChars := by
    simp only [Node.plainCharsAll_eq_flatMap, List.flatMap_append, List.flatMap_cons]
    rfl
  content links σ := by
    rw [each_append_cons, each_append, node_unknown, present_append, present_append, present_cons,
      Option.toList_none, List.nil_append, relabelAll_append, relabelAll_append,
      relabelAll_present (each _ _ (0 + before.length + 1) after _).1,
      relabelAll_present (each _ _ (0 + before.length) after _).1,
      each_forgotten hov hg after (0 + before.length + 1) (0 + before.length)]
    rfl
  parts links σ := by
    have hlength : before.length = (each ⟨ov, links⟩ tight 0 before σ).1.length :=
      (length_each before).symm
    rw [each_append_cons, each_append, node_unknown, relabel_ofList_append_cons hlength,
      List.zip_append hlength, TableParts.ofList, TableParts.ofList, List.foldl_append,
      TableParts.relabel_foldl_push _ after, Option.map_none, push_unknown,
      each_forgotten hov hg after (0 + before.length + 1) (0 + before.length)]
    rfl

end Forgotten

/-! ### What is rendered inside a node -/

section Inside

variable {n : Node} {kids kids' : List Node}

/-- What is rendered inside a node that holds other children: these, or nothing, or for an item
what a tight list makes of them. -/
theorem content_holding (hov : ov.onlyTags = true) (n : Node) (tight : Option Bool) :
    (∀ kids, (n.holding kids).content ov tight = kids) ∨
      n.isTable = false ∧ ((∀ kids, (n.holding kids).content ov tight = []) ∨
        n.isItem = true ∧ ∀ kids, (n.holding kids).content ov tight =
          Node.itemContent kids (tight = some true)) := by
  have hitem (kind : Kind) : ov.unwraps kind tight = decide (tight = some true) := by
    rw [Overrides.unwraps, Overrides.hasComponent_of_onlyTags hov, Bool.not_false, Bool.and_true]
  cases n with
  | container k oldKids attrs auto =>
    cases k with
    | listItem =>
      exact Or.inr ⟨rfl, Or.inr ⟨rfl, fun kids =>
        congrArg (Node.itemContent kids) (hitem (.container .listItem))⟩⟩
    | _ => exact Or.inl fun kids => rfl
  | taskListItem checkbox oldKids attrs =>
    exact Or.inr ⟨rfl, Or.inr ⟨rfl, fun kids =>
      congrArg (Node.itemContent kids) (hitem .taskListItem)⟩⟩
  | link k =>
    cases k with
    | link => exact Or.inl fun kids => rfl
    | image => exact Or.inr ⟨rfl, Or.inl fun kids => rfl⟩
  | doc | heading | row | cell | footnote | list | orderedList => exact Or.inl fun kids => rfl
  | _ => exact Or.inr ⟨rfl, Or.inl fun kids => rfl⟩

/-- What an item shows of a node that is all it holds, if the node is no paragraph. -/
theorem SameOutput.unwrapped {m m' : Node} (h : SameOutput ov g none m m')
    (hm : m.isParagraph = false) (hm' : m'.isParagraph = false) :
    SameContent ov g none (Node.itemContent [m] true) (Node.itemContent [m'] true) := by
  intro links σ
  rw [Node.itemContent_singleton hm, Node.itemContent_singleton hm', each_cons, each_cons,
    each_nil, each_nil, relabelAll_present, relabelAll_present, List.map_cons, List.map_cons, h]

/-! ### Documents -/

/-- Footnotes that can stand for each other. -/
structure NoteInterchangeable (ov : Overrides) (g : Option String → Option String)
    (f f' : Footnote) : Prop where
  attributes : f.attributes = f'.attributes
  body : AllInterchangeable ov g none f.children f'.children

/-- Dictionaries of footnotes with the same labels that can stand for each other. -/
abbrev NotesInterchangeable (ov : Overrides) (g : Option String → Option String)
    (notes notes' : List (String × Footnote)) : Prop :=
  List.Forall₂ (fun e e' => e.1 = e'.1 ∧ NoteInterchangeable ov g e.2 e'.2) notes notes'

namespace NotesInterchangeable

variable {notes notes' : List (String × Footnote)}

theorem refl (notes : List (String × Footnote)) : NotesInterchangeable ov g notes notes :=
  List.forall₂_same.2 fun _ _ => ⟨rfl, rfl, .refl _⟩

/-- One of several footnotes is replaced. -/
theorem replace {f f' : Footnote} (h : NoteInterchangeable ov g f f')
    (earlier later : List (String × Footnote)) (key : String) :
    NotesInterchangeable ov g (earlier ++ (key, f) :: later) (earlier ++ (key, f') :: later) :=
  List.rel_append (refl earlier) (.cons ⟨rfl, h⟩ (refl later))

variable (h : NotesInterchangeable ov g notes notes')

include h

theorem keys : notes.map Prod.fst = notes'.map Prod.fst := by
  induction h with
  | nil => rfl
  | cons he _ ih => rw [List.map_cons, List.map_cons, he.1, ih]

theorem lookup_cases (label : String) :
    notes.lookup label = none ∧ notes'.lookup label = none ∨
      ∃ f f', notes.lookup label = some f ∧ notes'.lookup label = some f' ∧
        NoteInterchangeable ov g f f' := by
  induction h with
  | nil => exact Or.inl ⟨rfl, rfl⟩
  | @cons e e' _ _ he _ ih =>
    rw [List.lookup_cons, List.lookup_cons, ← he.1]
    split
    · exact Or.inr ⟨e.2, e'.2, rfl, rfl, he.2⟩
    · exact ih

theorem bodyOf (label : String) :
    AllInterchangeable ov g none (Render.bodyOf notes label) (Render.bodyOf notes' label) := by
  rw [Render.bodyOf, Render.bodyOf]
  obtain ⟨hnone, hnone'⟩ | ⟨f, f', hf, hf', hnote⟩ := h.lookup_cases label
  · rw [hnone, hnone']
    exact .refl []
  · rw [hf, hf']
    exact hnote.body

theorem labelBound {kids kids' : List Node} (hkids : AllInterchangeable ov g tight kids kids') :
    labelBound kids notes = labelBound kids' notes' := by
  have hfoldr : notes.foldr (fun e n => (Node.mentionsAll e.2.children).length + n) 0 =
      notes'.foldr (fun e n => (Node.mentionsAll e.2.children).length + n) 0 := by
    induction h with
    | nil => rfl
    | cons he _ ih => rw [List.foldr_cons, List.foldr_cons, he.2.body.mentions, ih]
  rw [Render.labelBound, Render.labelBound, hkids.mentions, h.length_eq, hfoldr]

/-- The endnotes of documents whose footnotes can stand for each other. -/
theorem render_eq (hov : ov.onlyTags = true) {kids kids' : List Node}
    (hkids : AllInterchangeable ov g none kids kids') (attrs : Attributes)
    (refs auto : References) (σ : Numbering) :
    relabelAll id g ((endnotesOf ov kids attrs refs auto notes).render σ).1.toList =
      relabelAll id g ((endnotesOf ov kids' attrs refs auto notes').render σ).1.toList := by
  have hnote := Endnotes.relabel_note (f := id) (g := g)
    (e := endnotesOf ov kids attrs refs auto notes)
    (d := endnotesOf ov kids' attrs refs auto notes') hov rfl
    (fun label => by
      rw [Endnotes.footnote, Endnotes.footnote, endnotesOf, endnotesOf]
      obtain ⟨hnone, hnone'⟩ | ⟨f, f', hf, hf', hnote⟩ := h.lookup_cases label
      · rw [hnone, hnone']
      · rw [hf, hf']
        exact hnote.attributes)
    (fun label σ => by
      rw [endnotesOf, endnotesOf, lookup_bodies_getD, lookup_bodies_getD]
      refine ⟨(h.bodyOf label).content ⟨refs, auto⟩ σ, ?_⟩
      change (each _ none 0 _ σ).2 = (each _ none 0 _ σ).2
      rw [each_snd, each_snd, (h.bodyOf label).cited])
  have hitems : relabelAll id g ((endnotesOf ov kids attrs refs auto notes).notes σ).1 =
      relabelAll id g ((endnotesOf ov kids' attrs refs auto notes').notes σ).1 := by
    rw [relabelAll_eq_map, relabelAll_eq_map]
    exact (Endnotes.notes_map_eq hnote h.keys (h.labelBound hkids) σ).1
  rw [Endnotes.render_fst_of_notes, Endnotes.render_fst_of_notes, isEmpty_eq_of_relabelAll hitems]
  split
  · rfl
  · rw [relabelAll_toList, relabelAll_toList]
    refine congrArg (fun h => [h]) (Request.SameBut.single_element (f := id) (g := g) ?_ hov _)
    refine ⟨rfl, rfl, rfl, ?_⟩
    simp only [relabelAll, relabel, hitems]

end NotesInterchangeable

/-- **The children and the footnotes of a document are replaced.** -/
theorem AllInterchangeable.document (hov : ov.onlyTags = true)
    (h : AllInterchangeable ov g none kids kids') {notes notes' : List (String × Footnote)}
    (hnotes : NotesInterchangeable ov g notes notes') (attrs : Attributes)
    (refs auto : References) :
    Interchangeable ov g tight (.doc kids attrs refs auto notes)
      (.doc kids' attrs refs auto notes') := by
  have houtput (tight : Option Bool) : SameOutput ov g tight (.doc kids attrs refs auto notes)
      (.doc kids' attrs refs auto notes') := by
    intro links key σ
    have hprops : (Node.doc kids attrs refs auto notes).props ∅ =
        (Node.doc kids' attrs refs auto notes').props ∅ := rfl
    rw [node_doc_run, node_doc_run]
    refine congrArg some (Single.relabel_group (f := id) (g := g) hov hprops rfl ?_ _ _ _)
    rw [relabelAll_append, relabelAll_append, each_snd, each_snd, h.mentions, h.cited,
      h.content, hnotes.render_eq hov h]
  exact ⟨rfl, h.mentions, h.plainChars, fun _ _ => rfl, houtput tight,
    fun _ => (houtput none).unwrapped rfl rfl⟩

/-! ### Children -/

/-- What a node shows of its children, if these are replaced by others of which an item of a tight
list shows the same. -/
theorem AllInterchangeable.content_eq (hov : ov.onlyTags = true)
    (h : AllInterchangeable ov g n.tightness kids kids')
    (hitem : n.isItem = true → tight = some true →
      SameContent ov g none (Node.itemContent kids true) (Node.itemContent kids' true)) :
    SameContent ov g n.tightness ((n.holding kids).content ov tight)
      ((n.holding kids').content ov tight) := by
  obtain hkids | ⟨-, hnil | ⟨hn, hkids⟩⟩ := content_holding hov n tight
  · rw [hkids, hkids]
    exact h.content
  · rw [hnil, hnil]
    exact fun _ _ => rfl
  · rw [hkids, hkids]
    by_cases htight : tight = some true
    · rw [decide_eq_true htight, Node.tightness_of_isItem hn]
      exact hitem hn htight
    · rw [decide_eq_false htight, Node.itemContent_false, Node.itemContent_false]
      exact h.content

/-- **The children of a node are replaced**, where an item of a tight list shows the same of
them. -/
theorem AllInterchangeable.holding (hov : ov.onlyTags = true)
    (h : AllInterchangeable ov g n.tightness kids kids')
    (hitem : n.isItem = true → tight = some true →
      SameContent ov g none (Node.itemContent kids true) (Node.itemContent kids' true)) :
    Interchangeable ov g tight (n.holding kids) (n.holding kids') := by
  cases hdoc : n.isDoc with
  | true =>
    cases n with
    | doc oldKids attrs refs auto notes => exact h.document hov (.refl notes) attrs refs auto
    | _ => cases hdoc
  | false =>
    have houtput : SameOutput ov g tight (n.holding kids) (n.holding kids') := by
      intro links key σ
      rw [node_run (n.isDoc_holding.trans hdoc), node_run (n.isDoc_holding.trans hdoc)]
      simp only [Node.tightness_holding, Node.ownLabels_holding]
      refine relabel_output hov (h.content_eq hov hitem links _) (fun htable => ?_) h.plainChars
        rfl fun _ _ => rfl
      obtain hkids | ⟨hfalse, -⟩ := content_holding hov n tight
      · rw [hkids, hkids]
        exact h.parts links _
      · exact absurd (hfalse.symm.trans htable) Bool.false_ne_true
    refine ⟨n.cited_holding h.cited, n.mentions_holding h.mentions,
      n.plainChars_holding h.plainChars, fun t rendered => ?_, houtput, fun htight => ?_⟩
    · rw [Node.push_holding, Node.push_holding]
    · subst htight
      cases hn : n.isParagraph with
      | true =>
        -- A paragraph that is all an item holds gives way to its children.
        obtain ⟨oldKids, attrs, auto, rfl⟩ := Node.eq_of_isParagraph hn
        exact h.content
      | false =>
        exact houtput.unwrapped (n.isParagraph_holding.trans hn) (n.isParagraph_holding.trans hn)

/-- One child of a node is replaced. -/
theorem Interchangeable.child {m m' : Node} (hov : ov.onlyTags = true)
    (h : Interchangeable ov g n.tightness m m') (before after : List Node) :
    Interchangeable ov g tight (n.holding (before ++ m :: after))
      (n.holding (before ++ m' :: after)) := by
  refine (h.siblings before after).holding hov fun hn _ => ?_
  have htight := Node.tightness_of_isItem hn
  rw [htight] at h
  by_cases hsingle : before = [] ∧ after = []
  · obtain ⟨rfl, rfl⟩ := hsingle
    exact h.unwrapped rfl
  · have hlength (x : Node) : (before ++ x :: after).length ≠ 1 := fun hone => by
      rw [List.length_append, List.length_cons] at hone
      exact hsingle ⟨List.length_eq_zero_iff.1 (by omega), List.length_eq_zero_iff.1 (by omega)⟩
    rw [Node.itemContent_of_length_ne (hlength m), Node.itemContent_of_length_ne (hlength m')]
    exact (h.siblings before after).content

/-- One footnote of a document is replaced by one with another node in its body. -/
theorem Interchangeable.body {m m' : Node} (hov : ov.onlyTags = true)
    (h : Interchangeable ov g none m m') (kids : List Node) (attrs : Attributes)
    (refs auto : References) (earlier later : List (String × Footnote)) (key label : String)
    (before after : List Node) (own : Attributes) :
    Interchangeable ov g tight
      (.doc kids attrs refs auto (earlier ++ (key, ⟨label, before ++ m :: after, own⟩) :: later))
      (.doc kids attrs refs auto
        (earlier ++ (key, ⟨label, before ++ m' :: after, own⟩) :: later)) := by
  have hnote : NoteInterchangeable ov g ⟨label, before ++ m :: after, own⟩
      ⟨label, before ++ m' :: after, own⟩ := ⟨rfl, h.siblings before after⟩
  exact (AllInterchangeable.refl kids).document hov (.replace hnote earlier later key) attrs refs
    auto

/-- **A node at one place in a tree is replaced.** -/
theorem Interchangeable.of_somewhere {R : Option Bool → Node → Node → Prop}
    (hov : ov.onlyTags = true) (hR : ∀ tight n n', R tight n n' → Interchangeable ov g tight n n')
    {n n' : Node} (h : n.Somewhere R tight n') : Interchangeable ov g tight n n' := by
  induction h with
  | here h => exact hR _ _ _ h
  | child n before after _ ih => exact ih.child hov before after
  | body kids attrs refs auto earlier later key label before after own _ ih =>
    exact ih.body hov kids attrs refs auto earlier later key label before after own

end Inside

end DocMarkup.Render
