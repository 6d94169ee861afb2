import DocMarkup.Proofs.Render.Layers
import DocMarkup.Proofs.Render.Origin
import Mathlib.Data.List.Pairwise

/-!
# The attributes of a start tag

Properties have different names, but two pairs of them are written under one name: `class` and
`className`, `for` and `htmlFor`. No element has a property named `class`. The attribute `for` of a
node, however, becomes a property of that name, where the one of an element of raw HTML becomes
`htmlFor`. So a start tag repeats an attribute just if a node has both `for` and `htmlFor`, and then
it is `for` that is written twice.

## Main definitions

* `Html.attributeNames` : the names of the attributes that are written for properties.
* `Node.attribute?` : an attribute of a node, be it given, derived or that of a reference.
* `Render.Bears` : the nodes whose properties elements of a rendering have.

## Main results

* `Html.pairwise_attributeNames` : a name that is written twice is `for`.
* `RawHtml.nodup_attributeNames` : raw HTML repeats no attribute.
* `Render.attributes_differ` : the elements of a rendering that repeat an attribute.
-/

namespace DocMarkup

open Html (AllElements)

/-- The names of the attributes that are written for properties, in order. -/
def Html.attributeNames (p : Props) : List String := (attributes p).map Prod.fst

/-- The value that a node has for an attribute: the one that the author gave, or else the derived
one, or else the one of the reference that a link or an image takes its target from. -/
def Node.attribute? (links : Links) (n : Node) (name : String) : Option String :=
  ((n.attributes?.getD ∅).get? name).or (((n.autoAttributes?.getD ∅).get? name).or
    ((n.source? links).bind fun r => r.attributes.get? name))

/-- Elements of the rendering of a tree may have the properties of a node that is rendered for the
tree, or those of the note of a footnote. `own` is what the attributes of the node go over. -/
inductive Render.Bears (ov : Overrides) (root : Node) : Links → Node → Props → Prop where
  | node {links : Links} {tight : Option Bool} {n : Node} (hn : Visits ov root links tight n)
      (before : Numbering) : Bears ov root links n (n.ownProps links before)
  | note {links : Links} {tight : Option Bool} {kids : List Node} {attrs : Attributes}
      {refs auto : References} {notes : List (String × Footnote)} {label : String} {f : Footnote}
      (h : Visits ov root links tight (.doc kids attrs refs auto notes))
      (hf : f = (endnotesOf ov kids attrs refs auto notes).footnote label) (index : Nat) :
      Bears ov root ⟨refs, auto⟩ (.footnote f) (Single.single "id" (Numbering.noteId index))

/-! ### Names that are written -/

namespace Html

/-- Two properties that are written under one name. -/
theorem eq_or_of_attributeName_eq {a b : String} (ha : a ≠ "class") (hb : b ≠ "class")
    (h : attributeName a = attributeName b) :
    a = b ∨ attributeName a = "for" ∧
      ((a = "for" ∧ b = "htmlFor") ∨ (a = "htmlFor" ∧ b = "for")) := by
  unfold attributeName at h ⊢
  grind

variable {p : Props}

/-- **A name that is written twice is `for`**, and stands for the properties `for` and `htmlFor`. -/
theorem pairwise_attributeNames (hclass : p.get? "class" = none) :
    (attributeNames p).Pairwise fun a b =>
      a = b → a = "for" ∧ p.get? "for" ≠ none ∧ p.get? "htmlFor" ≠ none := by
  have hget {e : String × PropValue} (he : e ∈ p.entries) : p.get? e.1 ≠ none := by
    simp [OrderedMap.get?_of_mem_entries he]
  have hne {e : String × PropValue} (he : e ∈ p.entries) : e.1 ≠ "class" := fun h =>
    hget he (h ▸ hclass)
  have hkeys : p.entries.Pairwise fun e e' => e.1 ≠ e'.1 := List.pairwise_map.1 p.nodup_keys
  rw [attributeNames, attributes, List.pairwise_map, List.pairwise_filterMap]
  refine hkeys.imp_of_mem fun {e e'} he he' hdiff a ha b hb hab => ?_
  rw [(attribute?_eq_some_iff.1 ha).2.1, (attribute?_eq_some_iff.1 hb).2.1] at hab
  rw [(attribute?_eq_some_iff.1 ha).2.1]
  rcases eq_or_of_attributeName_eq (hne he) (hne he') hab with heq | ⟨hfor, h | h⟩
  · exact absurd heq hdiff
  · exact ⟨hfor, h.1 ▸ hget he, h.2 ▸ hget he'⟩
  · exact ⟨hfor, h.2 ▸ hget he', h.1 ▸ hget he⟩

theorem nodup_attributeNames_of (hclass : p.get? "class" = none)
    (h : p.get? "for" = none ∨ p.get? "htmlFor" = none) : (attributeNames p).Nodup :=
  (pairwise_attributeNames hclass).imp fun hab he =>
    h.elim (fun h => (hab he).2.1 h) fun h => (hab he).2.2 h

theorem nodup_filter_attributeNames (hclass : p.get? "class" = none) :
    ((attributeNames p).filter (· ≠ "for")).Nodup :=
  List.pairwise_filter.2 <| (pairwise_attributeNames hclass).imp fun hab ha _ he =>
    absurd (hab he).1 (by simpa using ha)

/-- Texts under both names are both written. -/
theorem not_nodup_attributeNames {v w : String} (hfor : p.get? "for" = some (.text v))
    (hhtml : p.get? "htmlFor" = some (.text w)) : ¬ (attributeNames p).Nodup := by
  have hmem {k : String} {u : PropValue} (h : p.get? k = some u) : (k, u) ∈ p.entries :=
    OrderedMap.mem_of_lookup_eq_some h
  intro hnodup
  rw [attributeNames, attributes, List.Nodup, List.pairwise_map, List.pairwise_filterMap] at hnodup
  have : Std.Symm fun e e' : String × PropValue =>
      ∀ a, attribute? e = some a → ∀ b, attribute? e' = some b → a.1 ≠ b.1 :=
    ⟨fun _ _ h a ha b hb => (h b hb a ha).symm⟩
  have hname : isAttributeName "for" = true := by decide
  have hwritten : attribute? ("for", .text v) = some ("for", v) ∧
      attribute? ("htmlFor", .text w) = some ("for", w) :=
    ⟨attribute?_eq_some_iff.2 ⟨hname, rfl, rfl⟩, attribute?_eq_some_iff.2 ⟨hname, rfl, rfl⟩⟩
  exact hnodup.forall (hmem hfor) (hmem hhtml) (by simp) _ hwritten.1 _ hwritten.2 rfl

end Html

/-! ### Properties that elements have -/

/-- The set of the names that are written under the name of another property. -/
def isRenamed (name : String) : Bool := ["class", "for", "htmlFor"].contains name

theorem isForeign_isRenamed : IsForeign isRenamed := by
  unfold IsForeign
  decide

theorem Render.lacks_made {p : Props} (h : Made p) : p.Lacks isRenamed := by
  cases h with
  | empty => exact Props.lacks_empty
  | checkbox state =>
    have htype := Single.lacks_single isForeign_isRenamed "type" (by decide) "checkbox"
    cases state with
    | checked => exact (htype.insert rfl _).insert rfl _
    | unchecked => exact htype.insert rfl _
  | language lang => exact Single.lacks_languageClass isForeign_isRenamed lang
  | backlink target => exact (Props.lacks_empty.insert rfl _).insert rfl _
  | endnotes => exact Props.lacks_empty.insert rfl _

theorem Node.lacks_kindProps (links : Links) (before : Numbering) (n : Node) :
    (n.kindProps links before).Lacks isRenamed := by
  have hforeign := isForeign_isRenamed
  cases n with
  | cell head align => exact Single.lacks_alignment hforeign align
  | footnoteReference =>
    exact ((Props.lacks_empty.insert rfl _).insert rfl _).insert rfl _
  | link k =>
    cases k with
    | link => exact Single.lacks_optional hforeign Props.lacks_empty "href" (by decide) _
    | image =>
      exact Single.lacks_optional hforeign
        (Single.lacks_optional hforeign Props.lacks_empty "alt" (by decide) _) "src" (by decide) _
  | list k =>
    cases k with
    | bullet => exact Props.lacks_empty
    | task => exact Single.lacks_single hforeign "className" (by decide) _
  | orderedList isTight style start =>
    exact Single.lacks_optional hforeign (Single.lacks_startNumber hforeign start) "type"
      (by decide) _
  | literal k =>
    cases k with
    | str | code | verbatim => exact Props.lacks_empty
    | inlineMath | displayMath => exact Single.lacks_single hforeign "className" (by decide) _
    | url | email => exact Single.lacks_single hforeign "href" (by decide) _
  | _ => exact Props.lacks_empty

theorem lacks_noteProps (index : Nat) :
    (Single.single "id" (Numbering.noteId index)).Lacks isRenamed := Props.lacks_empty.insert rfl _

namespace RawHtml

theorem fst_ne_of_property? {name value : String} {e : String × PropValue}
    (h : property? name value = some e) : e.1 ≠ "class" ∧ e.1 ≠ "for" := by
  unfold property? at h
  split at h
  · cases h
    simp
  · split at h
    · cases h
      simp
    · rename_i hclass hfor
      split at h
      · obtain ⟨s, -, rfl⟩ := Option.map_eq_some_iff.1 h
        simp
      · split at h <;> cases h <;> exact ⟨hclass, hfor⟩

/-- What sanitizing makes of an attribute has another name if it is written under one. -/
theorem get?_sanitizeAttributes (attrs : List (String × String)) :
    (sanitizeAttributes attrs).get? "class" = none ∧
      (sanitizeAttributes attrs).get? "for" = none := by
  have hne {e : String × PropValue} (he : e ∈ (sanitizeAttributes attrs).entries) :
      e.1 ≠ "class" ∧ e.1 ≠ "for" := by
    obtain ⟨name, value, -, -, hprop⟩ := exists_of_mem_sanitizeAttributes he
    exact fst_ne_of_property? hprop
  constructor <;> refine OrderedMap.lookup_eq_none_iff_notMem.2 fun hm => ?_
  all_goals obtain ⟨e, he, heq⟩ := List.mem_map.1 hm
  · exact (hne he).1 heq
  · exact (hne he).2 heq

/-- **Raw HTML repeats no attribute.** -/
theorem nodup_attributeNames (attrs : List (String × String)) :
    (Html.attributeNames (sanitizeAttributes attrs)).Nodup :=
  Html.nodup_attributeNames_of (get?_sanitizeAttributes attrs).1
    (Or.inl (get?_sanitizeAttributes attrs).2)

end RawHtml

section Node

variable {ov : Overrides} {root : Node} {links : Links} {n : Node} {own : Props}

/-- The attributes `for` and `htmlFor` become properties of these names, whatever their values. -/
theorem Props.get?_withAttributes_of_for {name : String} (hname : name = "for" ∨ name = "htmlFor")
    (p : Props) (attrs : Attributes) :
    (p.withAttributes attrs).get? name = ((attrs.get? name).map .text).or (p.get? name) := by
  have hsafe (value : String) : Hazard.isUnsafe name value = false := by
    rcases hname with rfl | rfl <;>
      exact Hazard.passes_iff.1 (Hazard.passes_of_isUrlAttribute (by decide) (by decide))
  rw [get?_withAttributes_of_plain (by rcases hname with rfl | rfl <;> decide), Attributes.kept?]
  cases attrs.get? name <;> simp [Option.filter, hsafe]

/-- So an element has them just if its node has them. -/
theorem Render.Bears.get?_props (h : Bears ov root links n own) {name : String}
    (hname : name = "for" ∨ name = "htmlFor") :
    (n.props own).get? name = (n.attribute? links name).map .text := by
  have hrenamed : isRenamed name = true := by rcases hname with rfl | rfl <;> rfl
  have hown : own.get? name =
      ((n.source? links).bind fun r => r.attributes.get? name).map .text := by
    cases h with
    | node hn before =>
      rw [Node.ownProps]
      have hkind := n.lacks_kindProps links before name hrenamed
      cases n.source? links with
      | none => exact hkind
      | some r =>
        rw [Single.withSource, Props.get?_withAttributes_of_for hname, hkind, Option.or_none]
        rfl
    | note h hf index => exact lacks_noteProps index name hrenamed
  rw [Node.props, Props.get?_withAttributes_of_for hname, Props.get?_withAttributes_of_for hname,
    hown, Node.attribute?, Option.map_or, Option.map_or]

theorem Render.Bears.get?_class (h : Bears ov root links n own) :
    (n.props own).get? "class" = none := by
  rw [Node.props, Props.get?_class_withAttributes, Props.get?_class_withAttributes]
  cases h with
  | node hn before =>
    rw [Node.ownProps]
    have hkind := n.lacks_kindProps links before "class" rfl
    cases n.source? links with
    | none => exact hkind
    | some r => rwa [Single.withSource, Props.get?_class_withAttributes]
  | note h hf index => exact lacks_noteProps index "class" rfl

/-- An element with the properties of a node repeats an attribute just if the node has both `for`
and `htmlFor`. -/
theorem Render.Bears.not_nodup_iff (h : Bears ov root links n own) :
    ¬ (Html.attributeNames (n.props own)).Nodup ↔
      (n.attribute? links "for").isSome ∧ (n.attribute? links "htmlFor").isSome := by
  have hfor := h.get?_props (Or.inl rfl)
  have hhtml := h.get?_props (Or.inr rfl)
  cases ha : n.attribute? links "for" with
  | none =>
    rw [ha] at hfor
    have hnodup := Html.nodup_attributeNames_of h.get?_class (Or.inl hfor)
    exact iff_of_false (not_not.2 hnodup) (by simp)
  | some v =>
    cases hb : n.attribute? links "htmlFor" with
    | none =>
      rw [hb] at hhtml
      have hnodup := Html.nodup_attributeNames_of h.get?_class (Or.inr hhtml)
      exact iff_of_false (not_not.2 hnodup) (by simp)
    | some w =>
      rw [ha] at hfor
      rw [hb] at hhtml
      exact iff_of_true (Html.not_nodup_attributeNames hfor hhtml) ⟨rfl, rfl⟩

end Node

namespace Render

variable {ov : Overrides} {root : Node} {tag : String} {key : Option String} {props : Props}

/-- The properties of an element are those of a node, or else no attribute is written twice for
them. No element has a property named `class`. -/
theorem Origin.nodup_or_bears (h : Origin ov root tag key props) :
    props.get? "class" = none ∧ ((Html.attributeNames props).Nodup ∨
      ∃ links n own, Bears ov root links n own ∧ props = n.props own) := by
  have hbears {links : Links} {n : Node} {own : Props} (h : Bears ov root links n own) :
      (n.props own).get? "class" = none ∧ ((Html.attributeNames (n.props own)).Nodup ∨
        ∃ links m own', Bears ov root links m own' ∧ n.props own = m.props own') :=
    ⟨h.get?_class, Or.inr ⟨links, n, own, h, rfl⟩⟩
  cases h with
  | made h =>
    have hclass := lacks_made h "class" rfl
    exact ⟨hclass, Or.inl (Html.nodup_attributeNames_of hclass (Or.inl (lacks_made h "for" rfl)))⟩
  | raw =>
    exact ⟨(RawHtml.get?_sanitizeAttributes _).1, Or.inl (RawHtml.nodup_attributeNames _)⟩
  | node hn => exact hbears (.node hn _)
  | @document links tight n hn hdoc =>
    cases n with
    | doc => exact hbears (.node hn {})
    | _ => cases hdoc
  | note h hf index => exact hbears (.note h hf index)

/-- **The elements that repeat an attribute.** An element in the rendering of a tree repeats an
attribute just if its properties are those of a node that has both the attributes `for` and
`htmlFor`, be they given, derived or those of a reference. No other name than `for` is ever
repeated, and none in raw HTML. -/
theorem attributes_differ (n : Node) :
    AllElements (fun _ _ props _ =>
      ((Html.attributeNames props).filter (· ≠ "for")).Nodup ∧
        (¬ (Html.attributeNames props).Nodup ↔ ∃ links m own, Bears ∅ n links m own ∧
          props = m.props own ∧ (m.attribute? links "for").isSome ∧
            (m.attribute? links "htmlFor").isSome)) (n.render ∅).toList ∧
      ∀ source key, AllElements (fun _ _ props _ => (Html.attributeNames props).Nodup)
        (RawHtml.sanitize source key) := by
  refine ⟨fun tag key props kids hm => ?_, fun source key => ?_⟩
  · obtain ⟨hclass, hnodup⟩ :=
      Origin.nodup_or_bears (allOrigin_node rfl n .root none {} tag key props kids hm)
    refine ⟨Html.nodup_filter_attributeNames hclass, fun hdup => ?_, ?_⟩
    · obtain ⟨links, m, own, hbears, rfl⟩ := hnodup.resolve_left hdup
      exact ⟨links, m, own, hbears, rfl, hbears.not_nodup_iff.1 hdup⟩
    · rintro ⟨links, m, own, hbears, rfl, hboth⟩
      exact hbears.not_nodup_iff.2 hboth
  · exact RawHtml.allElements_sanitizeNodes (P := fun _ _ => True)
      (fun _ attrs _ _ _ _ => RawHtml.nodup_attributeNames attrs) key 0 _ fun _ _ _ _ => trivial

/-- A node with both attributes. -/
def doubled : Node := .container .span [] (.ofList [("for", "a"), ("htmlFor", "b")]) ∅

theorem attributes_doubled :
    ¬ AllElements (fun _ _ props _ => (Html.attributeNames props).Nodup) (doubled.render ∅).toList ∧
      doubled.renderMarkup ∅ = "<span for=\"a\" for=\"b\"></span>" := by
  decide +kernel

end Render

end DocMarkup
