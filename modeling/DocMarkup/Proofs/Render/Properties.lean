import DocMarkup.Proofs.Markup.Collect
import DocMarkup.Proofs.OrderedMap
import DocMarkup.Render.Attributes

/-!
# Properties of a node

The attributes of a node change no property but those they name, the classes and the style. So a
property that no attribute names is the one that the node's kind sets.

## Main definitions

* `propertyName` : the property that an attribute sets.
* `Attributes.avoids` : whether no attribute has a name in a set.
* `Attributes.isPlain` : whether no attribute names what references and notes are told by.
* `kindProperties` : the names of the properties that kinds of nodes set, but for those names.

## Main results

* `Props.get?_withAttributes` : properties with a dictionary of attributes on top.
* `Node.get?_props` : the properties of a node.
-/

namespace DocMarkup

/-- The property that an attribute of a node sets, if the attribute sets any. -/
def propertyName (attr : String) : String := if attr = "class" then "className" else attr

theorem propertyName_of_ne {attr : String} (h : attr ≠ "class") : propertyName attr = attr :=
  if_neg h

namespace Props

variable {p : Props} {name : String}

theorem text?_insert_self (value : String) :
    Props.text? (p.insert name (.text value)) name = some value := by
  rw [text?, OrderedMap.get?_insert_self]

theorem get?_addClass (h : name ≠ "className") (classes : String) :
    (p.addClass classes).get? name = p.get? name := by
  unfold addClass
  dsimp only
  split
  · rfl
  · exact OrderedMap.get?_insert_of_ne h p _

theorem get?_addStyle (h : name ≠ "style") (declarations : String) :
    (p.addStyle declarations).get? name = p.get? name := by
  unfold addStyle
  split
  · rfl
  · rw [OrderedMap.get?_insert_of_ne h, OrderedMap.get?_erase_of_ne h]

/-- An attribute changes one property at most. -/
theorem get?_addAttribute_of_ne {attr : String} (h : name ≠ propertyName attr) (value : String) :
    (p.addAttribute attr value).get? name = p.get? name := by
  unfold addAttribute
  split
  · rfl
  split
  · rename_i hattr
    subst hattr
    exact get?_addClass h value
  · rename_i hattr
    rw [propertyName_of_ne hattr] at h
    split
    · rename_i hstyle
      subst hstyle
      exact get?_addStyle h value
    · exact OrderedMap.get?_insert_of_ne h p _

/-- A property that none of the attributes sets stays as it is. -/
theorem get?_foldl_addAttribute {es : List (String × String)}
    (h : ∀ e ∈ es, name ≠ propertyName e.1) :
    (es.foldl (fun p e => p.addAttribute e.1 e.2) p).get? name = p.get? name := by
  induction es generalizing p with
  | nil => rfl
  | cons e es ih =>
    rw [List.forall_mem_cons] at h
    rw [List.foldl_cons, ih h.2, get?_addAttribute_of_ne h.1]

theorem get?_withAttributes {attrs : Attributes}
    (h : ∀ attr ∈ attrs.keys, name ≠ propertyName attr) :
    (p.withAttributes attrs).get? name = p.get? name :=
  get?_foldl_addAttribute fun e he => h e.1 (List.mem_map_of_mem he)

end Props

/-- Whether no attribute has a name in the set. -/
def Attributes.avoids (S : String → Bool) (attrs : Attributes) : Bool := attrs.keys.all (!S ·)

/-- The names of the properties that kinds of nodes set, but for those that references and notes
are told by. -/
def kindProperties : List String :=
  ["className", "style", "href", "alt", "src", "type", "start", "checked", "disabled"]

/-- A set that has none of the names of the properties that kinds of nodes set. -/
def IsForeign (S : String → Bool) : Prop := ∀ name ∈ kindProperties, S name = false

/-- Properties with one more whose name is not in the set. -/
theorem Props.Lacks.insert {S : String → Bool} {p : Props} (h : p.Lacks S) {name : String}
    (hname : S name = false) (v : PropValue) : Props.Lacks S (p.insert name v) := fun k hk => by
  have hne : k ≠ name := by
    rintro rfl
    exact Bool.false_ne_true (hname.symm.trans hk)
  rw [OrderedMap.get?_insert_of_ne hne, h k hk]

section Avoids

variable {S : String → Bool} {name : String} (hclass : S "className" = false)
  (hname : S name = true)

include hclass hname

theorem Attributes.get?_of_avoids {attrs : Attributes} (h : Attributes.avoids S attrs = true)
    (p : Props) : (p.withAttributes attrs).get? name = p.get? name := by
  refine Props.get?_withAttributes fun attr hattr he => ?_
  rw [propertyName] at he
  split at he
  · rw [he, hclass] at hname
    cases hname
  · have hnot : S attr = false := by simpa using List.all_eq_true.1 h attr hattr
    rw [he, hnot] at hname
    cases hname

/-- Properties that no attribute of a node names are those that its kind sets. -/
theorem Node.get?_props {n : Node} (hattrs : (n.attributes?.getD ∅).avoids S = true)
    (hauto : (n.autoAttributes?.getD ∅).avoids S = true) (own : Props) :
    (n.props own).get? name = own.get? name := by
  rw [Node.props, Attributes.get?_of_avoids hclass hname hattrs,
    Attributes.get?_of_avoids hclass hname hauto]

end Avoids

/-- The names of the properties that tell references and their notes from other elements. -/
def anchorNames : List String := ["id", "href", "role"]

/-- Whether no attribute has the name of such a property. -/
def Attributes.isPlain (attrs : Attributes) : Bool := anchorNames.all (· ∉ attrs.keys)

theorem Attributes.avoids_of_isPlain {attrs : Attributes} (h : Attributes.isPlain attrs = true)
    {S : String → Bool} (hS : ∀ name, S name = true → name ∈ anchorNames) :
    attrs.avoids S = true := by
  rw [avoids, List.all_eq_true]
  intro name hm
  cases hname : S name with
  | false => rfl
  | true => exact absurd hm (by simpa using List.all_eq_true.1 h name (hS name hname))

end DocMarkup
