import DocMarkup.Proofs.Dict
import DocMarkup.Proofs.RawHtml.Safety
import DocMarkup.Proofs.Render.Properties

/-!
# Layers of attributes

The properties of a node come in layers: what its kind sets, over that the derived attributes, and
over these the attributes that the author gave. Most properties are those of the highest layer that
has them, where an attribute that is dropped as unsafe leaves the property to the layer below. The
classes of all layers add up, and the style is decided for each CSS property by itself.

## Main definitions

* `Attributes.kept?` : the value of an attribute that is not dropped.
* `joinedClasses` : class lists as one.
* `Attributes.css?`, `Props.css?` : the value of a CSS property in a style attribute or in the
  style.

## Main results

* `Props.get?_withAttributes_eq` : a property after a dictionary of attributes.
* `Node.props_layered` : the properties of a node by layers.
-/

namespace DocMarkup

namespace Attributes

/-- The value of an attribute that is not dropped: it neither handles an event nor holds an unsafe
address. -/
def kept? (attrs : Attributes) (name : String) : Option String :=
  (attrs.get? name).filter fun value => !Hazard.isUnsafe name value

/-- The value of a CSS property in the style attribute. -/
def css? (attrs : Attributes) (property : String) : Option String :=
  ((attrs.get? "style").bind Style.parse?).bind (·.get? property)

end Attributes

/-- The text that a property value is. -/
def PropValue.text? : PropValue → Option String
  | text s => some s
  | _ => none

/-- Class lists as one: those that are there and not empty, in order, with a space between. -/
def joinedClasses (lists : List (Option String)) : String :=
  " ".intercalate ((lists.filterMap id).filter (· ≠ ""))

namespace Props

/-- The value of a CSS property in the style. -/
def css? (p : Props) (property : String) : Option String :=
  match p.get? "style" with
  | some (.style s) => s.get? property
  | _ => none

/-- The classes, if there are any, are a text. -/
def HasTextClasses (p : Props) : Prop := ∀ v, p.get? "className" = some v → ∃ s, v = .text s

/-- The style, if there is one, is a style. -/
def HasStyle (p : Props) : Prop := ∀ v, p.get? "style" = some v → ∃ s, v = .style s

variable {p : Props} {name : String}

/-! ### Classes -/

theorem text?_eq_bind (p : Props) (name : String) :
    p.text? name = (p.get? name).bind PropValue.text? := by
  rw [text?]
  cases p.get? name with
  | none => rfl
  | some v => cases v <;> rfl

/-- An empty class list adds nothing. -/
theorem joinedClasses_of_empty {o : Option String} (h : o.getD "" = "")
    (before after : List (Option String)) :
    joinedClasses (before ++ o :: after) = joinedClasses (before ++ after) := by
  cases o with
  | none => simp [joinedClasses]
  | some s =>
    obtain rfl : s = "" := h
    simp [joinedClasses]

/-- Class lists may be joined one after the other. -/
theorem joinedClasses_joinedClasses {a : Option String} (h : a.getD "" ≠ "")
    (below e : Option String) :
    joinedClasses [some (joinedClasses [below, a]), e] = joinedClasses [below, a, e] := by
  obtain ⟨a, rfl⟩ : ∃ s, a = some s := Option.ne_none_iff_exists'.1 fun hn => h (by rw [hn]; rfl)
  have ha : a ≠ "" := h
  unfold joinedClasses
  cases below with
  | none =>
    cases e with
    | none => simp [ha]
    | some e => by_cases he : e = "" <;> simp [ha, he]
  | some b =>
    by_cases hb : b = ""
    all_goals cases e with
      | none => simp [ha, hb]
      | some e => by_cases he : e = "" <;> simp [ha, hb, he, String.append_assoc]

theorem joinClasses_eq (lists : Option String) (more : String) :
    joinClasses lists more = joinedClasses [lists, some more] := by
  unfold joinClasses joinedClasses
  cases lists with
  | none => by_cases hm : more = "" <;> simp [hm]
  | some a => by_cases ha : a = "" <;> by_cases hm : more = "" <;> simp [ha, hm]

theorem joinClasses_empty (lists : Option String) : joinClasses lists "" = lists.getD "" := by
  cases lists with
  | none => rfl
  | some a => by_cases ha : a = "" <;> simp [joinClasses, ha]

theorem joinClasses_ne_empty (lists : Option String) {more : String} (h : more ≠ "") :
    joinClasses lists more ≠ "" := by
  cases lists with
  | none => exact h
  | some a => by_cases ha : a = "" <;> simp [joinClasses, ha, h]

/-! ### One attribute -/

theorem addAttribute_class (value : String) : p.addAttribute "class" value = p.addClass value := by
  have hsafe : Hazard.isUnsafe "class" value = false :=
    Hazard.passes_iff.1 (Hazard.passes_of_isUrlAttribute (by decide) (by decide))
  simp [addAttribute, hsafe]

theorem addAttribute_style (value : String) : p.addAttribute "style" value = p.addStyle value := by
  have hsafe : Hazard.isUnsafe "style" value = false :=
    Hazard.passes_iff.1 (Hazard.passes_of_isUrlAttribute (by decide) (by decide))
  simp [addAttribute, hsafe]

/-! ### A dictionary of attributes -/

variable {attrs : Attributes}

/-- A property that only the attribute `k` of a dictionary can change is the one that this attribute
makes of it, if the dictionary has it. -/
theorem get?_withAttributes_eq {k : String} {g : String → Option PropValue → Option PropValue}
    (hself : ∀ (p : Props) value, (p.addAttribute k value).get? name = g value (p.get? name))
    (hother : ∀ attr ∈ attrs.keys, attr ≠ k → name ≠ propertyName attr) :
    (p.withAttributes attrs).get? name =
      (attrs.get? k).elim (p.get? name) fun value => g value (p.get? name) := by
  cases hk : attrs.get? k with
  | none =>
    refine get?_withAttributes fun attr hattr => hother attr hattr ?_
    rintro rfl
    exact Dict.get?_eq_none_iff.1 hk hattr
  | some value =>
    obtain ⟨before, after, hsplit⟩ := List.append_of_mem (Dict.get?_eq_some_iff.1 hk)
    have hnodup : (attrs.entries.map Prod.fst).Nodup := Dict.nodup_keys
    rw [hsplit, List.map_append, List.map_cons, List.nodup_middle, List.nodup_cons,
      ← List.map_append] at hnodup
    -- Keys do not repeat, so neither before nor after its entry is another one for `k`.
    have hrest : ∀ e ∈ before ++ after, name ≠ propertyName e.1 := fun e he => by
      have hkey : e.1 ∈ (before ++ after).map Prod.fst := List.mem_map_of_mem he
      refine hother e.1 (List.mem_map_of_mem ?_) fun heq => hnodup.1 (heq ▸ hkey)
      rw [hsplit]
      exact List.perm_middle.mem_iff.2 (List.mem_cons_of_mem _ he)
    rw [List.forall_mem_append] at hrest
    rw [withAttributes, hsplit, List.foldl_append, List.foldl_cons,
      get?_foldl_addAttribute hrest.2, hself, get?_foldl_addAttribute hrest.1, Option.elim_some]

/-- Most properties are those that the dictionary keeps, and where it keeps none, the ones below. -/
theorem get?_withAttributes_of_plain (h : name ∉ ["class", "className", "style"]) :
    (p.withAttributes attrs).get? name = ((attrs.kept? name).map .text).or (p.get? name) := by
  obtain ⟨hclass, hclassName, hstyle⟩ : name ≠ "class" ∧ name ≠ "className" ∧ name ≠ "style" := by
    simpa using h
  rw [get?_withAttributes_eq (k := name)
    (g := fun value below => if Hazard.isUnsafe name value then below else some (.text value))]
  · rw [Attributes.kept?]
    cases attrs.get? name with
    | none => rfl
    | some value => cases hu : Hazard.isUnsafe name value <;> simp [Option.filter, hu]
  · intro p value
    rw [addAttribute]
    split
    · rfl
    · exact OrderedMap.get?_insert_self p name _
  · intro attr _ hattr
    rw [propertyName]
    split
    · exact hclassName
    · exact Ne.symm hattr

/-- No property named `class` is made. -/
theorem get?_class_withAttributes : (p.withAttributes attrs).get? "class" = p.get? "class" := by
  rw [get?_withAttributes_eq (k := "class") (g := fun _ below => below)]
  · cases attrs.get? "class" <;> rfl
  · exact fun p value => by rw [addAttribute_class, get?_addClass (by decide)]
  · intro attr _ hattr
    rw [propertyName_of_ne hattr]
    exact Ne.symm hattr

/-- The classes of a layer come behind those below it. A layer without classes leaves them alone. -/
theorem get?_className_withAttributes (hp : p.HasTextClasses) (hattrs : "className" ∉ attrs.keys) :
    (p.withAttributes attrs).get? "className" =
      if (attrs.get? "class").getD "" = "" then p.get? "className"
      else some (.text (joinedClasses [p.text? "className", attrs.get? "class"])) := by
  rw [get?_withAttributes_eq (k := "class") (g := fun value below =>
    let joined := joinClasses (below.bind PropValue.text?) value
    if joined = "" then below else some (.text joined))]
  · cases attrs.get? "class" with
    | none => rfl
    | some value =>
      rw [← joinClasses_eq, text?_eq_bind, Option.elim_some, Option.getD_some]
      by_cases hv : value = ""
      · subst hv
        rw [joinClasses_empty, if_pos rfl]
        cases h : p.get? "className" with
        | none => rfl
        | some v =>
          obtain ⟨s, rfl⟩ := hp v h
          by_cases hs : s = "" <;> simp [hs, PropValue.text?]
      · simp [hv, joinClasses_ne_empty]
  · intro p value
    rw [addAttribute_class, addClass, text?_eq_bind]
    by_cases h : joinClasses ((p.get? "className").bind PropValue.text?) value = "" <;> simp [h]
  · intro attr hattr hne
    rw [propertyName_of_ne hne]
    rintro rfl
    exact hattrs hattr

theorem HasTextClasses.withAttributes (hp : p.HasTextClasses) (hattrs : "className" ∉ attrs.keys) :
    (p.withAttributes attrs).HasTextClasses := by
  intro v hv
  rw [get?_className_withAttributes hp hattrs] at hv
  split at hv
  · exact hp v hv
  · exact ⟨_, (Option.some.inj hv).symm⟩

/-- A style attribute is laid over the style below. -/
theorem get?_style_withAttributes :
    (p.withAttributes attrs).get? "style" =
      match (attrs.get? "style").bind Style.parse?, p.get? "style" with
      | none, below => below
      | some s, some (.style old) => some (.style (OrderedMap.overlay old s))
      | some s, _ => some (.style s) := by
  rw [get?_withAttributes_eq (k := "style") (g := fun text below =>
    match Style.parse? text, below with
    | none, below => below
    | some s, some (.style old) => some (.style (OrderedMap.overlay old s))
    | some s, _ => some (.style s))]
  · cases attrs.get? "style" <;> rfl
  · intro p text
    rw [addAttribute_style, addStyle]
    cases Style.parse? text with
    | none => rfl
    | some s =>
      rw [OrderedMap.get?_insert_self]
      cases p.get? "style" with
      | none => rfl
      | some v => cases v <;> rfl
  · intro attr _ hne
    rw [propertyName]
    split
    · decide
    · exact Ne.symm hne

theorem HasStyle.withAttributes (hp : p.HasStyle) : (p.withAttributes attrs).HasStyle := by
  intro v hv
  rw [get?_style_withAttributes] at hv
  split at hv
  · exact hp v hv
  · exact ⟨_, (Option.some.inj hv).symm⟩
  · exact ⟨_, (Option.some.inj hv).symm⟩

/-- Each CSS property is that of the highest layer that has it. -/
theorem css?_withAttributes (hp : p.HasStyle) (property : String) :
    (p.withAttributes attrs).css? property = (attrs.css? property).or (p.css? property) := by
  rw [css?, get?_style_withAttributes, Attributes.css?, css?]
  cases (attrs.get? "style").bind Style.parse? with
  | none => rfl
  | some s =>
    cases h : p.get? "style" with
    | none => exact (Option.or_none).symm
    | some v =>
      obtain ⟨old, rfl⟩ := hp v h
      exact OrderedMap.get?_overlay old s property

end Props

/-- **The properties of a node by layers.** Most properties are those of the highest layer that has
them, not counting what is dropped as unsafe. The classes of all layers are joined in order, and
stay as they are if no attribute adds any. Each CSS property is that of the highest style that has
it. No property named `class` is made, and no property is there twice. -/
theorem Node.props_layered (n : Node) (own : Props) (hclasses : own.HasTextClasses)
    (hstyle : own.HasStyle) (hauto : "className" ∉ (n.autoAttributes?.getD ∅).keys)
    (hattrs : "className" ∉ (n.attributes?.getD ∅).keys) :
    let auto := n.autoAttributes?.getD ∅
    let attrs := n.attributes?.getD ∅
    let p := n.props own
    (∀ name ∉ ["class", "className", "style"],
      p.get? name = (((attrs.kept? name).or (auto.kept? name)).map .text).or (own.get? name)) ∧
    (p.get? "className" =
      if (auto.get? "class").getD "" = "" ∧ (attrs.get? "class").getD "" = "" then
        own.get? "className"
      else some (.text
        (joinedClasses [own.text? "className", auto.get? "class", attrs.get? "class"]))) ∧
    (∀ property, p.css? property =
      ((attrs.css? property).or (auto.css? property)).or (own.css? property)) ∧
    p.HasStyle ∧ p.get? "class" = own.get? "class" ∧ p.keys.Nodup := by
  intro auto attrs p
  have hp : p = (own.withAttributes auto).withAttributes attrs := rfl
  refine ⟨fun name hname => ?_, ?_, fun property => ?_, hstyle.withAttributes.withAttributes, ?_,
    p.nodup_keys⟩
  · rw [hp, Props.get?_withAttributes_of_plain hname, Props.get?_withAttributes_of_plain hname,
      Option.map_or, Option.or_assoc]
  · rw [hp, Props.get?_className_withAttributes (hclasses.withAttributes hauto) hattrs,
      Props.text?_eq_bind, Props.get?_className_withAttributes hclasses hauto]
    generalize auto.get? "class" = a
    generalize attrs.get? "class" = e
    by_cases ha : a.getD "" = ""
    · have hskip : joinedClasses [own.text? "className", a, e] =
          joinedClasses [own.text? "className", e] :=
        Props.joinedClasses_of_empty ha [own.text? "className"] [e]
      simp only [ha, true_and, if_true, ← Props.text?_eq_bind, hskip]
    · rw [if_neg ha, if_neg fun h : a.getD "" = "" ∧ _ => ha h.1, Option.bind_some,
        PropValue.text?, Props.joinedClasses_joinedClasses ha]
      split
      · rename_i he
        exact congrArg (fun s => some (PropValue.text s))
          (Props.joinedClasses_of_empty he [own.text? "className", a] []).symm
      · rfl
  · rw [hp, Props.css?_withAttributes hstyle.withAttributes, Props.css?_withAttributes hstyle,
      Option.or_assoc]
  · rw [hp, Props.get?_class_withAttributes, Props.get?_class_withAttributes]

/-- Properties that a kind could set: a class, a style and an address. -/
def layeredOwn : Props :=
  .ofList [("className", .text "base"), ("style", .style (.ofList [("textAlign", "left")])),
    ("href", .text "#own")]

/-- A heading in which the layers meet: an empty class list over another, a style over a style, and
an address that is dropped over one that is kept. -/
def layered : Node :=
  .heading 1 []
    (.ofList [("class", ""), ("href", "javascript:a"), ("id", "mine"), ("style", "color: red")])
    (.ofList [("class", "auto"), ("href", "/auto"), ("id", "derived"),
      ("style", "color: blue; margin: 0")])

theorem Node.props_layered_heading :
    let p := layered.props layeredOwn
    (layeredOwn.HasTextClasses ∧ layeredOwn.HasStyle ∧
      "className" ∉ (layered.autoAttributes?.getD ∅).keys ∧
        "className" ∉ (layered.attributes?.getD ∅).keys) ∧
    p.get? "id" = some (.text "mine") ∧ p.get? "href" = some (.text "/auto") ∧
    p.get? "className" = some (.text "base auto") ∧
    p.css? "color" = some "red" ∧ p.css? "margin" = some "0" ∧
    p.css? "textAlign" = some "left" := by
  have hclasses : layeredOwn.HasTextClasses := fun v hv => ⟨"base", (Option.some.inj hv).symm⟩
  have hstyle : layeredOwn.HasStyle := fun v hv => ⟨_, (Option.some.inj hv).symm⟩
  have hauto : "className" ∉ (layered.autoAttributes?.getD ∅).keys := by decide
  have hattrs : "className" ∉ (layered.attributes?.getD ∅).keys := by decide
  obtain ⟨hnames, hclass, hcss, -⟩ :=
    Node.props_layered layered layeredOwn hclasses hstyle hauto hattrs
  refine ⟨⟨hclasses, hstyle, hauto, hattrs⟩, (hnames "id" (by decide)).trans ?_,
    (hnames "href" (by decide)).trans ?_, hclass.trans ?_, (hcss "color").trans ?_,
    (hcss "margin").trans ?_, (hcss "textAlign").trans ?_⟩
  all_goals decide +kernel

end DocMarkup
