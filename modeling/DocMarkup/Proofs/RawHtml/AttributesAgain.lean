import DocMarkup.Proofs.Markup.StyleText
import DocMarkup.Proofs.RawHtml.RoundTrip
import DocMarkup.Proofs.RawHtml.Safety

/-!
# Attributes that are sanitized again

The attributes of a sanitized element, written and read, are attributes again. Sanitizing them drops
none and keeps each as it is, but for the text of a style, from which what stands in front of a name
is cut off. So they are written as they were just if every style among them has steady names.

## Main definitions

* `PropValue.IsSteady` : a value that is no style, or a style of steady names.
* `RawHtml.HasSmallNames` : attributes as they are read, with small names.

## Main results

* `RawHtml.attributes_sanitizeAttributes_readProperties` : attributes of steady styles are written
  as they were.
* `RawHtml.isSteady_of_readProperties_eq` : attributes that are read as they were have steady styles.
-/

namespace DocMarkup

/-- No name of a style in the value starts with a capital or a blank. -/
def PropValue.IsSteady : PropValue → Prop
  | style s => s.IsSteady
  | _ => True

instance : DecidablePred PropValue.IsSteady
  | .style s => inferInstanceAs (Decidable (∀ e ∈ s.entries, Style.IsSteadyName e.1.toList))
  | .text _ | .flag _ | .number _ => isTrue trivial

namespace RawHtml

open Html (readProperty? readProperties isWrittenName readValue?)

/-! ### Attributes that are read again -/

/-- The names of the attributes are small, as names are read. -/
def HasSmallNames (attrs : List (String × String)) : Prop := ∀ a ∈ attrs, lowered a.1.toList = a.1

theorem lowered_toList_lowered (name : List Char) :
    lowered (lowered name).toList = lowered name := by
  rw [lowered, lowered, String.toList_ofList, List.map_map]
  exact congrArg String.ofList (List.map_congr_left fun c _ => Text.toLower_toLower c)

theorem hasSmallNames_attributeList (s : List Char) : HasSmallNames (attributeList s) := by
  rw [attributeList_eq_scanned]
  fun_induction scanned s with
  | case1 => exact fun _ ha => absurd ha List.not_mem_nil
  | case2 c rest _ ih => exact ih
  | case3 c rest _ name _ v after _ _ ih =>
    exact List.forall_mem_cons.2 ⟨lowered_toList_lowered _, ih⟩
  | case4 c rest _ name _ _ ih => exact List.forall_mem_cons.2 ⟨lowered_toList_lowered _, ih⟩

theorem readProperty?_of_ne {name : String} (hclass : name ≠ "className") (hfor : name ≠ "htmlFor")
    (v : PropValue) :
    readProperty? (name, v) = if isWrittenName name.toList then
      (readValue? v).map fun x => (lowered name.toList, x) else none := by
  unfold readProperty?
  split
  · rename_i hn
    exact absurd hn hclass
  · rename_i hn
    exact absurd hn hfor
  · rfl

theorem readProperty?_className (s : String) :
    readProperty? ("className", .text s) = some ("class", s) := by
  rw [← Html.map_readBack_attribute?]
  have hattr : Html.attribute? ("className", .text s) = some ("class", s) :=
    if_pos (show Html.isAttributeName (Html.attributeName "className") = true by decide)
  rw [hattr, Option.map_some, readBack, show lowered "class".toList = "class" by decide]

theorem readProperty?_htmlFor (s : String) :
    readProperty? ("htmlFor", .text s) = some ("for", s) := by
  rw [← Html.map_readBack_attribute?]
  have hattr : Html.attribute? ("htmlFor", .text s) = some ("for", s) :=
    if_pos (show Html.isAttributeName (Html.attributeName "htmlFor") = true by decide)
  rw [hattr, Option.map_some, readBack, show lowered "for".toList = "for" by decide]

theorem hasSmallNames_readProperties (p : Props) : HasSmallNames (readProperties p) := fun a ha => by
  rw [← Html.map_readBack_attributes] at ha
  obtain ⟨b, -, rfl⟩ := List.mem_map.1 ha
  exact lowered_toList_lowered _

theorem readProperty?_style {s : Style} (hs : s.IsReadStyle) :
    readProperty? ("style", .style s) = some ("style", s.css) := by
  rw [readProperty?_of_ne (by decide) (by decide), if_pos (by decide), readValue?,
    if_neg hs.ne_nil, Option.map_some, show lowered "style".toList = "style" by decide]

/-- **An attribute that is kept is read as it was**, but for the text of a style. -/
theorem eq_of_readProperty?_of_property? {name value : String} {e : String × PropValue}
    {a : String × String} (hname : lowered name.toList = name) (h : property? name value = some e)
    (ha : readProperty? e = some a) :
    name ≠ "style" ∧ a = (name, value) ∨
      name = "style" ∧ ∃ s, Style.parse? value = some s ∧ e = ("style", .style s) ∧
        a = ("style", s.css) := by
  have hclass : name ≠ "className" := fun hn => by
    rw [hn] at hname
    exact absurd hname (by decide)
  have hfor : name ≠ "htmlFor" := fun hn => by
    rw [hn] at hname
    exact absurd hname (by decide)
  unfold property? at h
  split at h
  · rename_i hn
    cases h
    rw [readProperty?_className] at ha
    exact .inl ⟨by rw [hn]; decide, by rw [hn, Option.some.inj ha]⟩
  split at h
  · rename_i hn
    cases h
    rw [readProperty?_htmlFor] at ha
    exact .inl ⟨by rw [hn]; decide, by rw [hn, Option.some.inj ha]⟩
  split at h
  · rename_i hn
    obtain ⟨s, hs, rfl⟩ := Option.map_eq_some_iff.1 h
    rw [readProperty?_style (Style.isReadStyle_of_parse? hs)] at ha
    exact .inr ⟨hn, s, hs, rfl, (Option.some.inj ha).symm⟩
  · rename_i hstyle
    refine .inl ⟨hstyle, ?_⟩
    split at h
    · rename_i hflag
      cases h
      rw [readProperty?_of_ne hclass hfor] at ha
      split at ha
      · cases ha
        simp only [Bool.and_eq_true, String.isEmpty_iff] at hflag
        rw [hname, hflag.1]
      · cases ha
    · cases h
      rw [readProperty?_of_ne hclass hfor] at ha
      split at ha
      · cases ha
        rw [hname]
      · cases ha

/-! ### Properties that are sanitized again -/

variable {attrs : List (String × String)}

/-- What is read for a property of a sanitized element gives the property back, if it holds no
style with a name that is not steady. -/
theorem property?_of_mem_sanitizeAttributes (hsmall : HasSmallNames attrs)
    {e : String × PropValue} (he : e ∈ (sanitizeAttributes attrs).entries) (hs : e.2.IsSteady)
    {a : String × String} (ha : readProperty? e = some a) : property? a.1 a.2 = some e := by
  obtain ⟨name, value, hm, -, hprop⟩ := exists_of_mem_sanitizeAttributes he
  rcases eq_of_readProperty?_of_property? (hsmall _ hm) hprop ha with
    ⟨-, rfl⟩ | ⟨-, s, hparse, rfl, rfl⟩
  · exact hprop
  · have hagain : Style.parse? s.css = some s := (Style.isReadStyle_of_parse? hparse).parse?_css hs
    change (Style.parse? s.css).map (fun s => ("style", PropValue.style s)) = _
    rw [hagain, Option.map_some]

/-- No attribute of a sanitized element is dropped when it is sanitized again. -/
theorem filter_readProperties_sanitizeAttributes (attrs : List (String × String)) :
    (readProperties (sanitizeAttributes attrs)).filter (fun a => !Hazard.isUnsafe a.1 a.2) =
      readProperties (sanitizeAttributes attrs) := by
  refine List.filter_eq_self.2 fun a ha => ?_
  rw [← Html.map_readBack_attributes] at ha
  obtain ⟨b, hb, rfl⟩ := List.mem_map.1 ha
  rw [Hazard.passes_iff.1 (passes_readBack hb)]
  rfl

/-- What is left of the properties of a sanitized element when it is sanitized again are those that
are written. -/
theorem entries_sanitizeAttributes_readProperties (hsmall : HasSmallNames attrs)
    (hs : ∀ e ∈ (sanitizeAttributes attrs).entries, e.2.IsSteady) :
    (sanitizeAttributes (readProperties (sanitizeAttributes attrs))).entries =
      (sanitizeAttributes attrs).entries.filter fun e => (readProperty? e).isSome := by
  have hread : (readProperties (sanitizeAttributes attrs)).filterMap (fun a => property? a.1 a.2) =
      (sanitizeAttributes attrs).entries.filter fun e => (readProperty? e).isSome := by
    rw [readProperties, List.filterMap_filterMap, ← List.filterMap_eq_filter]
    refine List.filterMap_congr fun e he => ?_
    cases ha : readProperty? e with
    | none => rw [Option.bind_none, Option.guard_eq_none_iff.2 (by rw [ha]; rfl)]
    | some a =>
      rw [Option.bind_some, property?_of_mem_sanitizeAttributes hsmall he (hs e he) ha]
      simp [Option.guard, ha]
  rw [sanitizeAttributes, filter_readProperties_sanitizeAttributes, hread]
  exact OrderedMap.entries_ofList
    ((sanitizeAttributes attrs).nodup_keys.sublist (List.filter_sublist.map _))

/-- **Attributes that are sanitized again** are written as they were, if all styles among them have
steady names. -/
theorem attributes_sanitizeAttributes_readProperties (hsmall : HasSmallNames attrs)
    (hs : ∀ e ∈ (sanitizeAttributes attrs).entries, e.2.IsSteady) :
    Html.attributes (sanitizeAttributes (readProperties (sanitizeAttributes attrs))) =
      Html.attributes (sanitizeAttributes attrs) := by
  rw [Html.attributes, entries_sanitizeAttributes_readProperties hsmall hs, List.filterMap_filter]
  refine List.filterMap_congr fun e _ => ?_
  rw [← Html.map_readBack_attribute?, Option.isSome_map]
  cases Html.attribute? e <;> rfl

/-- The attribute `style` of a sanitized element is the text of its style. -/
theorem eq_style_of_readProperty? (hsmall : HasSmallNames attrs) {e : String × PropValue}
    (he : e ∈ (sanitizeAttributes attrs).entries) {css : String}
    (ha : readProperty? e = some ("style", css)) :
    ∃ s value, ("style", value) ∈ attrs ∧ Style.parse? value = some s ∧ e = ("style", .style s) ∧
      css = s.css := by
  obtain ⟨name, value, hm, -, hprop⟩ := exists_of_mem_sanitizeAttributes he
  rcases eq_of_readProperty?_of_property? (hsmall _ hm) hprop ha with
    ⟨hn, h⟩ | ⟨rfl, s, hparse, rfl, h⟩
  · exact absurd (Prod.mk.inj h).1.symm hn
  · exact ⟨s, value, hm, hparse, rfl, (Prod.mk.inj h).2⟩

/-- A property that holds a style comes from the attribute `style`. -/
theorem parse?_of_property?_eq_style {name value k : String} {s : Style}
    (h : property? name value = some (k, .style s)) :
    k = "style" ∧ Style.parse? value = some s := by
  unfold property? at h
  split at h
  · cases h
  split at h
  · cases h
  split at h
  · obtain ⟨s', hs, he⟩ := Option.map_eq_some_iff.1 h
    cases he
    exact ⟨rfl, hs⟩
  split at h <;> cases h

/-- **Attributes that are read the same again** have styles with steady names only. -/
theorem isSteady_of_readProperties_eq (hsmall : HasSmallNames attrs)
    (h : readProperties (sanitizeAttributes (readProperties (sanitizeAttributes attrs))) =
      readProperties (sanitizeAttributes attrs)) :
    ∀ e ∈ (sanitizeAttributes attrs).entries, e.2.IsSteady := by
  rintro ⟨k, v⟩ he
  cases v with
  | style s =>
    obtain ⟨name, value, -, -, hprop⟩ := exists_of_mem_sanitizeAttributes he
    obtain ⟨rfl, hparse⟩ := parse?_of_property?_eq_style hprop
    have hs := Style.isReadStyle_of_parse? hparse
    have hmem : ("style", s.css) ∈ readProperties (sanitizeAttributes attrs) :=
      List.mem_filterMap.2 ⟨_, he, readProperty?_style hs⟩
    rw [← h] at hmem
    -- the text of the style is the text of the style that was read from the same attribute again
    obtain ⟨e', he', ha'⟩ := List.mem_filterMap.1 hmem
    obtain ⟨s', css, hcss, hagain, -, hsame⟩ :=
      eq_style_of_readProperty? (hasSmallNames_readProperties _) he' ha'
    obtain ⟨e'', he'', ha''⟩ := List.mem_filterMap.1 hcss
    obtain ⟨s'', -, -, -, rfl, rfl⟩ := eq_style_of_readProperty? hsmall he'' ha''
    have hnodup := (sanitizeAttributes attrs).nodup_keys
    have hone : s = s'' := by
      have := (OrderedMap.lookup_eq_some_iff_mem hnodup).2 he
      rw [(OrderedMap.lookup_eq_some_iff_mem hnodup).2 he''] at this
      cases this
      rfl
    subst hone
    exact hs.isSteady_of_css_eq hagain hsame.symm
  | _ => trivial

end RawHtml

end DocMarkup
