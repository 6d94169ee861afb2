import DocMarkup.Proofs.Markup.StyleText

/-!
# The properties that a style text sets

What is written for a style text, told from its declarations. Reading a name and writing it undo
each other, but for the hyphens in front of it: those are cut off when the name is read, and do not
come back. So a written style has the declarations of the text, each under its name without the
hyphens in front, and declarations whose names differ by such hyphens only set one property.

## Main definitions

* `Style.written?`, `Style.declared` : a declaration and the declarations of a text, with names and
  values as they stand there.
* `Style.IsWrittenName` : a name of small letters, digits and hyphens, and not of hyphens only.
* `Style.bare`, `Style.joined`, `Style.settings` : a name without the hyphens in front of it, such a
  name in camel case, and the declarations of a text under such names.
* `Style.listed` : declarations as a text.

## Main results

* `Style.declaration?_eq` : a declaration is kept under its bare name in camel case.
* `Style.entries_ofList_declaration?` : the style of a text sets the bare names, each to its last
  value.
* `Style.css_of_parse?` : the text that is written for a style text.
-/

namespace DocMarkup.Style

/-- The name and the value of a declaration as they stand there, but for blanks at the ends. A
declaration without a colon or a value is none. -/
def written? (piece : List Char) : Option (List Char × List Char) :=
  match Text.cut? ':' piece with
  | none => none
  | some (name, value) =>
    if Text.trim value = [] then none else some (Text.trim name, Text.trim value)

/-- The declarations of a style text in order. -/
def declared (text : String) : List (List Char × List Char) :=
  (Text.split ';' text.toList).filterMap written?

/-- The name is made of small letters, digits and hyphens, and not of hyphens only. -/
def IsWrittenName (name : List Char) : Prop :=
  (∀ c ∈ name, c.isLower ∨ c.isDigit ∨ c = '-') ∧ ∃ c ∈ name, c ≠ '-'

instance : DecidablePred IsWrittenName := fun name =>
  decidable_of_iff
    ((name.all fun c => c.isLower || c.isDigit || c = '-') && name.any (· ≠ '-')) (by
      simp [IsWrittenName, or_assoc])

/-- The name without the hyphens in front of it. -/
def bare (name : List Char) : List Char := name.dropWhile (· = '-')

/-- A bare name in camel case. -/
def joined (name : List Char) : String := String.ofList (joinWords name)

/-- The declarations of a style text under their bare names. -/
def settings (text : String) : List (List Char × List Char) :=
  (declared text).map (Prod.map bare id)

/-- Declarations as a text, one after the other. -/
def listed (declarations : List (List Char × List Char)) : String :=
  String.ofList ((declarations.map fun d => d.1 ++ ':' :: d.2).intersperse [';']).flatten

/-! ### Names -/

theorem isUpper_of_isWrittenName {name : List Char} (h : IsWrittenName name) :
    ∀ c ∈ bare name, c.isUpper = false := fun c hc => by
  rcases h.1 c ((List.dropWhile_sublist _).subset hc) with hl | hd | rfl
  · exact Text.isUpper_of_isLower hl
  · have hdigit : 48 ≤ c.toNat ∧ c.toNat ≤ 57 := Char.isDigit_iff_toNat.1 hd
    rw [Bool.eq_false_iff, ne_eq, Text.isUpper_iff]
    omega
  · rfl

theorem joinWords_bare_ne_nil {name : List Char} (h : IsWrittenName name) :
    joinWords (bare name) ≠ [] := by
  obtain ⟨c, hc, hne⟩ := h.2
  rw [ne_eq, joinWords_eq_nil_iff]
  exact fun he => hne (by simpa using List.dropWhile_eq_nil_iff.1 he c hc)

/-- A name without capitals is written as it was before it was read. -/
theorem hyphenate_joined {name : List Char} (h : ∀ c ∈ name, c.isUpper = false) :
    hyphenate (joined name).toList = name := by
  rw [joined, String.toList_ofList, hyphenate_joinWords h]

/-- So no two such names are read as one. -/
theorem joined_inj {name name' : List Char} (h : ∀ c ∈ name, c.isUpper = false)
    (h' : ∀ c ∈ name', c.isUpper = false) (he : joined name = joined name') : name = name' := by
  rw [← hyphenate_joined h, he, hyphenate_joined h']

/-! ### Declarations -/

/-- **A declaration is kept under its bare name in camel case.** -/
theorem declaration?_eq {piece : List Char} (h : ∀ d ∈ written? piece, IsWrittenName d.1) :
    declaration? piece = (written? piece).map fun d => (joined (bare d.1), String.ofList d.2) := by
  unfold declaration?
  unfold written? at h ⊢
  cases hcut : Text.cut? ':' piece with
  | none => rfl
  | some d =>
    obtain ⟨name, value⟩ := d
    rw [hcut] at h
    by_cases hv : Text.trim value = []
    · simp only [hv, or_true, if_true, Option.map_none]
    · simp only [if_neg hv, Option.mem_some_iff, forall_eq'] at h
      have hne : camelCase name ≠ [] := joinWords_bare_ne_nil h
      simp only [hv, hne, or_self, if_false, Option.map_some]
      rfl

theorem trim_of_written? {piece : List Char} {d : List Char × List Char}
    (h : written? piece = some d) : Text.trim d.2 = d.2 := by
  unfold written? at h
  split at h
  · cases h
  · split at h <;> cases h
    exact Text.trim_trim _

/-! ### Styles -/

variable {text : String}

theorem isUpper_of_mem_settings (h : ∀ d ∈ declared text, IsWrittenName d.1) :
    ∀ d ∈ settings text, ∀ c ∈ d.1, c.isUpper = false := fun d hd => by
  obtain ⟨e, he, rfl⟩ := List.mem_map.1 hd
  exact isUpper_of_isWrittenName (h e he)

theorem trim_of_mem_settings {d : List Char × List Char} (h : d ∈ settings text) :
    Text.trim d.2 = d.2 := by
  obtain ⟨e, he, rfl⟩ := List.mem_map.1 h
  obtain ⟨piece, -, hwritten⟩ := List.mem_filterMap.1 he
  exact trim_of_written? (d := e) hwritten

/-- What is read from a style text. -/
theorem filterMap_declaration? (h : ∀ d ∈ declared text, IsWrittenName d.1) :
    (Text.split ';' text.toList).filterMap declaration? =
      (settings text).map (Prod.map joined String.ofList) := by
  rw [settings, declared, List.map_filterMap, List.map_filterMap]
  refine List.filterMap_congr fun piece hpiece => ?_
  rw [declaration?_eq fun d hd => h d (List.mem_filterMap.2 ⟨piece, hpiece, hd⟩), Option.map_map]
  rfl

/-- **The style of a text sets the bare names**, in the order of their first declarations, each to
its last value. -/
theorem entries_ofList_declaration? (h : ∀ d ∈ declared text, IsWrittenName d.1) :
    (OrderedMap.ofList ((Text.split ';' text.toList).filterMap declaration?)).entries =
      (OrderedMap.lastValues (settings text)).map (Prod.map joined String.ofList) := by
  have hname := isUpper_of_mem_settings h
  rw [filterMap_declaration? h, OrderedMap.entries_ofList_eq]
  exact OrderedMap.lastValues_map (fun a ha b hb => joined_inj (hname a ha) (hname b hb)) _

theorem map_declaration (h : ∀ d ∈ declared text, IsWrittenName d.1) :
    ((OrderedMap.lastValues (settings text)).map (Prod.map joined String.ofList)).map declaration =
      (OrderedMap.lastValues (settings text)).map fun d => d.1 ++ ':' :: d.2 := by
  rw [List.map_map]
  refine List.map_congr_left fun d hd => ?_
  have hset := OrderedMap.mem_of_mem_lastValues hd
  rw [Function.comp_apply, declaration, Prod.map_fst, Prod.map_snd, String.toList_ofList,
    trim_of_mem_settings hset, hyphenate_joined (isUpper_of_mem_settings h d hset)]

/-- **What is written for a style text** whose names are made of small letters, digits and hyphens:
the declarations that have a value, each under its name without the hyphens in front, in the order
in which these names are declared first and each with the value that was declared last. Only a
text without such declarations is no style. -/
theorem css_of_parse? (text : String) (h : ∀ d ∈ declared text, IsWrittenName d.1) :
    (parse? text = none ↔ declared text = []) ∧
      ∀ style, parse? text = some style →
        style.css = listed (OrderedMap.lastValues (settings text)) := by
  have hentries := entries_ofList_declaration? h
  have hempty : (OrderedMap.ofList ((Text.split ';' text.toList).filterMap declaration?)).isEmpty =
      true ↔ declared text = [] := by
    rw [OrderedMap.isEmpty, List.isEmpty_iff, hentries, List.map_eq_nil_iff,
      OrderedMap.lastValues_eq_nil_iff, settings, List.map_eq_nil_iff]
  simp only [parse?]
  split
  · exact ⟨iff_of_true rfl (hempty.1 ‹_›), fun style hstyle =>
      absurd hstyle.symm (Option.some_ne_none style)⟩
  · refine ⟨iff_of_false (Option.some_ne_none _) (mt hempty.2 ‹_›), fun style hstyle => ?_⟩
    rw [← Option.some.inj hstyle, css, hentries, map_declaration h, listed]

/-- A style text with hyphens in front of names, with names that differ by such hyphens only, and
with a declaration without a value. -/
def mixedText : String := "top: 1;-x-y: a;left:;--x-y: b;top: 2;x: c"

theorem css_of_parse?_mixed :
    (∀ d ∈ declared mixedText, IsWrittenName d.1) ∧
      (parse? mixedText).map css = some "top:2;x-y:b;x:c" := by
  have hnames : ∀ d ∈ declared mixedText, IsWrittenName d.1 := by decide +kernel
  obtain ⟨hnone, hcss⟩ := css_of_parse? mixedText hnames
  refine ⟨hnames, ?_⟩
  cases h : parse? mixedText with
  | none => exact absurd (hnone.1 h) (by decide +kernel)
  | some style =>
    rw [Option.map_some, hcss style h]
    decide +kernel

/-- A hyphen in front of a name is not written. -/
theorem css_of_parse?_prefixed :
    (∀ d ∈ declared "-webkit-transition: none", IsWrittenName d.1) ∧
      (parse? "-webkit-transition: none").map css = some "webkit-transition:none" ∧
      listed (OrderedMap.lastValues (declared "-webkit-transition: none")) ≠
        "webkit-transition:none" := by
  decide +kernel

end DocMarkup.Style
