import Mathlib.Algebra.GroupWithZero.Nat
import Mathlib.Algebra.Order.BigOperators.Group.List
import Mathlib.Algebra.Order.Group.Nat
import Mathlib.Data.List.Induction
import DocMarkup.Markup.Style
import DocMarkup.Proofs.OrderedMap
import DocMarkup.Proofs.Text.Letter
import DocMarkup.Proofs.Text.Pieces

/-!
# Inline styles that are read again

An inline style is read from a text, written as a text, and that text may be read once more. The
two spellings of a property undo each other: hyphens that make capitals come back from the capitals.
But what stands in front of a written name is cut off when the name is read, and a name that starts
with a capital is written with a hyphen in front. So the style is the same again just if no name in
it starts with a capital or with a blank.

## Main definitions

* `Style.IsName`, `Style.IsRead`, `Style.IsReadStyle` : names, declarations and styles as they are
  read.
* `Style.IsSteadyName`, `Style.IsSteady` : a name that starts with neither a capital nor a blank,
  and a style of such names.

## Main results

* `Style.isReadStyle_of_parse?` : what is read is a style as it is read.
* `Style.IsReadStyle.parse?_css` : a style of steady names is read again as it is.
* `Style.IsReadStyle.isSteady_of_css_eq` : a style that is written the same again is one of steady
  names.
-/

namespace DocMarkup.Style

/-! ### The two spellings of a name -/

/-- A hyphen in front of a small letter. -/
def Joins (c d : Char) : Prop := c = '-' ∧ d.isLower = true

/-- No hyphen stands in front of a small letter. -/
abbrev IsJoined (s : List Char) : Prop := s.IsChain fun c d => ¬ Joins c d

theorem joinWord_of_ne {c : Char} (h : c ≠ '-') (s : List Char) : joinWord c s = c :: s := by
  cases s with
  | nil => rfl
  | cons d s => exact if_neg fun hj => h hj.1

theorem isJoined_joinWord (c : Char) {s : List Char} (h : IsJoined s) : IsJoined (joinWord c s) := by
  cases s with
  | nil => exact .singleton c
  | cons d s =>
    rw [joinWord]
    split
    · rename_i hj
      have hd : d.toUpper ≠ '-' := fun he => by
        have := Text.isUpper_toUpper hj.2
        rw [he] at this
        exact absurd this (by decide)
      cases s with
      | nil => exact .singleton _
      | cons e s =>
        exact List.isChain_cons_cons.2 ⟨fun hj => hd hj.1, (List.isChain_cons_cons.1 h).2⟩
    · rename_i hj
      exact List.isChain_cons_cons.2 ⟨hj, h⟩

theorem isJoined_joinWords (s : List Char) : IsJoined (joinWords s) := by
  induction s with
  | nil => exact .nil
  | cons c s ih => exact isJoined_joinWord c ih

theorem hyphenate_cons (c : Char) (s : List Char) :
    hyphenate (c :: s) = (if c.isUpper then ['-', c.toLower] else [c]) ++ hyphenate s :=
  List.flatMap_cons

/-- Capitals that are written with hyphens are read as the same capitals. -/
theorem joinWords_hyphenate {s : List Char} (h : IsJoined s) : joinWords (hyphenate s) = s := by
  induction s with
  | nil => rfl
  | cons c s ih =>
    have hs : joinWords (hyphenate s) = s := ih h.of_cons
    rw [hyphenate_cons]
    cases hc : c.isUpper with
    | true =>
      have hl : c.toLower ≠ '-' := fun he => by
        have := Text.isLower_toLower hc
        rw [he] at this
        exact absurd this (by decide)
      change joinWord '-' (joinWord c.toLower (joinWords (hyphenate s))) = c :: s
      rw [hs, joinWord_of_ne hl, joinWord, if_pos ⟨rfl, Text.isLower_toLower hc⟩,
        Text.toUpper_toLower hc]
    | false =>
      change joinWord c (joinWords (hyphenate s)) = c :: s
      rw [hs]
      cases s with
      | nil => rfl
      | cons d s => exact if_neg (List.isChain_cons_cons.1 h).1

/-- Hyphens that are read as capitals are written as the same hyphens, if there were no capitals
before. -/
theorem hyphenate_joinWords {s : List Char} (h : ∀ c ∈ s, c.isUpper = false) :
    hyphenate (joinWords s) = s := by
  induction s with
  | nil => rfl
  | cons c s ih =>
    have hs : hyphenate (joinWords s) = s := ih fun d hd => h d (List.mem_cons_of_mem c hd)
    have hc : hyphenate (c :: joinWords s) = c :: s := by
      rw [hyphenate_cons, h c List.mem_cons_self, hs]
      rfl
    change hyphenate (joinWord c (joinWords s)) = c :: s
    cases hw : joinWords s with
    | nil => rwa [hw] at hc
    | cons d w =>
      rw [joinWord]
      rw [hw] at hs hc
      split
      · rename_i hj
        rw [hyphenate_cons, Text.isUpper_of_isLower hj.2] at hs
        rw [hyphenate_cons, Text.isUpper_toUpper hj.2, Text.toLower_toUpper hj.2, ← hs, hj.1]
        rfl
      · exact hc

theorem isUpper_of_mem_hyphenate {s : List Char} : ∀ c ∈ hyphenate s, c.isUpper = false :=
  fun c hc => by
    obtain ⟨d, -, hd⟩ := List.mem_flatMap.1 hc
    split at hd
    · rcases List.mem_pair.1 hd with rfl | rfl
      · rfl
      · exact Text.isUpper_toLower d
    · rename_i hu
      rw [List.mem_singleton.1 hd]
      exact Bool.not_eq_true _ ▸ hu

theorem mem_of_mem_hyphenate {s : List Char} {c : Char} (hc : c.isAlpha = false) (hh : c ≠ '-')
    (h : c ∈ hyphenate s) : c ∈ s := by
  obtain ⟨d, hd, hm⟩ := List.mem_flatMap.1 h
  split at hm
  · rename_i hu
    rcases List.mem_pair.1 hm with rfl | rfl
    · exact absurd rfl hh
    · rw [Text.isAlpha_toLower (by rw [Text.isAlpha_eq, hu, Bool.true_or])] at hc
      exact absurd hc (by decide)
  · rwa [List.mem_singleton.1 hm]

theorem mem_of_mem_joinWords {s : List Char} {c : Char} (hc : c.isUpper = false)
    (h : c ∈ joinWords s) : c ∈ s := by
  induction s with
  | nil => exact h
  | cons d s ih =>
    change c ∈ joinWord d (joinWords s) at h
    cases hw : joinWords s with
    | nil =>
      rw [hw] at h
      rw [List.mem_singleton.1 h]
      exact List.mem_cons_self
    | cons e w =>
      rw [hw] at h ih
      rw [joinWord] at h
      split at h
      · rename_i hj
        rcases List.mem_cons.1 h with rfl | h
        · rw [Text.isUpper_toUpper hj.2] at hc
          exact absurd hc (by decide)
        · exact List.mem_cons_of_mem d (ih (List.mem_cons_of_mem e h))
      · rcases List.mem_cons.1 h with rfl | h
        · exact List.mem_cons_self
        · exact List.mem_cons_of_mem d (ih h)

/-! ### The ends of a name -/

theorem isBlank_getLast?_hyphenate {s : List Char}
    (h : ∀ c ∈ s.getLast?, Text.isBlank c = false) :
    ∀ c ∈ (hyphenate s).getLast?, Text.isBlank c = false := fun c hc => by
  cases s using List.reverseRecOn with
  | nil => cases hc
  | append_singleton s d =>
    rw [hyphenate, List.flatMap_append, List.flatMap_singleton, List.getLast?_append] at hc
    split at hc
    · rename_i hu
      cases hc
      exact Text.isBlank_of_isAlpha (Text.isAlpha_toLower (by rw [Text.isAlpha_eq, hu, Bool.true_or]))
    · cases hc
      exact h d List.getLast?_concat

theorem joinWords_eq_nil_iff {s : List Char} : joinWords s = [] ↔ s = [] := by
  cases s with
  | nil => exact Iff.rfl
  | cons c s =>
    refine iff_of_false (fun h => ?_) (List.cons_ne_nil c s)
    change joinWord c (joinWords s) = [] at h
    unfold joinWord at h
    split at h
    · cases h
    · split at h <;> cases h

theorem isBlank_getLast?_joinWords {s : List Char}
    (h : ∀ c ∈ s.getLast?, Text.isBlank c = false) :
    ∀ c ∈ (joinWords s).getLast?, Text.isBlank c = false := by
  induction s with
  | nil => exact h
  | cons d s ih =>
    change ∀ c ∈ (joinWord d (joinWords s)).getLast?, Text.isBlank c = false
    cases s with
    | nil => exact h
    | cons e s =>
      have hlast := ih fun c hc => h c (by rwa [List.getLast?_cons_cons])
      cases hw : joinWords (e :: s) with
      | nil => exact absurd (joinWords_eq_nil_iff.1 hw) (List.cons_ne_nil e s)
      | cons f w =>
        rw [hw] at hlast
        rw [joinWord]
        split
        · rename_i hj
          have hf : Text.isBlank f.toUpper = false :=
            Text.isBlank_of_isAlpha (by rw [Text.isAlpha_eq, Text.isUpper_toUpper hj.2, Bool.true_or])
          cases w with
          | nil =>
            intro c hc
            cases hc
            exact hf
          | cons g w => rwa [List.getLast?_cons_cons] at hlast ⊢
        · rwa [List.getLast?_cons_cons]

/-! ### Names as they are read -/

/-- A name as it is read: no hyphen in it stands for a capital or at its start, and no blank at its
end. -/
structure IsName (s : List Char) : Prop where
  ne_nil : s ≠ []
  joined : IsJoined s
  head : s.head? ≠ some '-'
  last : ∀ c ∈ s.getLast?, Text.isBlank c = false

/-- The name starts with neither a capital nor a blank. -/
def IsSteadyName (s : List Char) : Prop :=
  ∀ c ∈ s.head?, c.isUpper = false ∧ Text.isBlank c = false

instance : DecidablePred IsSteadyName
  | [] => isTrue nofun
  | c :: _ =>
    decidable_of_iff (c.isUpper = false ∧ Text.isBlank c = false) (by simp [IsSteadyName])

theorem isName_camelCase {p : List Char} (h : camelCase p ≠ []) : IsName (camelCase p) where
  ne_nil := h
  joined := isJoined_joinWords _
  head := by
    rw [camelCase] at h ⊢
    have hhead := List.head?_dropWhile_not (· = '-') (Text.trim p)
    cases hs : (Text.trim p).dropWhile (· = '-') with
    | nil => rw [hs] at h; exact absurd rfl h
    | cons c s =>
      rw [hs] at hhead
      have hc : c ≠ '-' := by simpa using hhead
      change (joinWord c (joinWords s)).head? ≠ some '-'
      rw [joinWord_of_ne hc]
      exact fun he => hc (Option.some.inj he)
  last := by
    refine isBlank_getLast?_joinWords fun c hc => Text.getLast?_trim p c ?_
    obtain ⟨before, hbefore⟩ := List.dropWhile_suffix (l := Text.trim p) (· = '-')
    rw [← hbefore, List.getLast?_append, hc]
    rfl

/-- What is left of a written name when it is read is what follows its blanks and hyphens. -/
theorem hyphenate_camelCase_hyphenate (s : List Char) :
    hyphenate (camelCase (hyphenate s)) = (Text.trim (hyphenate s)).dropWhile (· = '-') :=
  hyphenate_joinWords fun c hc => isUpper_of_mem_hyphenate c
    ((Text.trim_sublist _).subset ((List.dropWhile_sublist _).subset hc))

theorem length_hyphenate_camelCase_hyphenate_le (s : List Char) :
    (hyphenate (camelCase (hyphenate s))).length ≤ (hyphenate s).length := by
  rw [hyphenate_camelCase_hyphenate]
  exact ((List.dropWhile_sublist _).trans (Text.trim_sublist _)).length_le

variable {s : List Char}

namespace IsName

/-- A steady name is read again as it is. -/
theorem camelCase_hyphenate (h : IsName s) (hs : IsSteadyName s) : camelCase (hyphenate s) = s := by
  obtain ⟨c, t, rfl⟩ := List.exists_cons_of_ne_nil h.ne_nil
  obtain ⟨hu, hb⟩ := hs c rfl
  have hhead : hyphenate (c :: t) = c :: hyphenate t := by
    rw [hyphenate_cons, hu]
    rfl
  have htrim : Text.trim (hyphenate (c :: t)) = hyphenate (c :: t) := by
    refine Text.trim_eq_self (fun d hd => ?_) (isBlank_getLast?_hyphenate h.last)
    rw [hhead] at hd
    cases hd
    exact hb
  have hdrop : (hyphenate (c :: t)).dropWhile (· = '-') = hyphenate (c :: t) := by
    rw [hhead]
    exact List.dropWhile_cons_of_neg fun he => h.head (congrArg some (of_decide_eq_true he))
  rw [camelCase, htrim, hdrop, joinWords_hyphenate h.joined]

/-- A name of which nothing is cut off when it is read again is steady. -/
theorem isSteadyName_of_length_le (h : IsName s)
    (hle : (hyphenate s).length ≤ (hyphenate (camelCase (hyphenate s))).length) :
    IsSteadyName s := by
  obtain ⟨c, t, rfl⟩ := List.exists_cons_of_ne_nil h.ne_nil
  rw [hyphenate_camelCase_hyphenate] at hle
  have hdrop := List.dropWhile_sublist (l := Text.trim (hyphenate (c :: t))) (· = '-')
  have htrim : Text.trim (hyphenate (c :: t)) = hyphenate (c :: t) :=
    (Text.trim_sublist _).eq_of_length_le (hle.trans hdrop.length_le)
  have hkept : (hyphenate (c :: t)).dropWhile (· = '-') = hyphenate (c :: t) := by
    rw [htrim] at hle hdrop
    exact hdrop.eq_of_length_le hle
  have hblank := Text.head?_trim (hyphenate (c :: t))
  have hhyphen := List.head?_dropWhile_not (· = '-') (hyphenate (c :: t))
  rw [htrim] at hblank
  rw [hkept] at hhyphen
  rw [hyphenate_cons] at hblank hhyphen
  intro d hd
  cases hd
  cases hu : c.isUpper with
  | true =>
    rw [hu] at hhyphen
    exact absurd hhyphen (by simp)
  | false =>
    rw [hu] at hblank
    exact ⟨rfl, hblank c rfl⟩

end IsName

/-! ### Declarations as they are read -/

/-- A property with its value as they are read from a declaration. -/
structure IsRead (e : String × String) : Prop where
  name : IsName e.1.toList
  noColon : ':' ∉ e.1.toList
  noSemicolon : ';' ∉ e.1.toList
  value_ne_nil : e.2.toList ≠ []
  trim_value : Text.trim e.2.toList = e.2.toList
  value_noSemicolon : ';' ∉ e.2.toList

theorem isRead_of_declaration? {p : List Char} {e : String × String} (hp : ';' ∉ p)
    (h : declaration? p = some e) : IsRead e := by
  unfold declaration? at h
  split at h
  · cases h
  · rename_i n v hcut
    obtain ⟨rfl, hcolon⟩ := Text.cut?_eq_some_iff.1 hcut
    rw [List.mem_append, List.mem_cons, not_or, not_or] at hp
    simp only at h
    split at h
    · cases h
    · rename_i hne
      rw [not_or] at hne
      cases h
      have hname : ∀ c ∈ camelCase n, c.isUpper = false → c ∈ n := fun c hc hu =>
        (Text.trim_sublist n).subset ((List.dropWhile_sublist _).subset (mem_of_mem_joinWords hu hc))
      constructor <;> simp only [String.toList_ofList]
      · exact isName_camelCase hne.1
      · exact fun hm => hcolon (hname _ hm rfl)
      · exact fun hm => hp.1 (hname _ hm rfl)
      · exact hne.2
      · exact Text.trim_trim v
      · exact fun hm => hp.2.2 ((Text.trim_sublist v).subset hm)

/-- How long a declaration is once it was written, read and written again; none has no length. -/
def lengthAgain (e : String × String) : Nat :=
  ((declaration? (declaration e)).map fun d => (declaration d).length).getD 0

namespace IsRead

variable {e : String × String}

theorem declaration_eq (h : IsRead e) :
    declaration e = hyphenate e.1.toList ++ ':' :: e.2.toList := by
  rw [declaration, h.trim_value]

/-- A written declaration is read with its name as that is read again. -/
theorem declaration?_declaration (h : IsRead e) :
    declaration? (declaration e) =
      if camelCase (hyphenate e.1.toList) = [] then none
      else some (String.ofList (camelCase (hyphenate e.1.toList)), e.2) := by
  have hcut : Text.cut? ':' (declaration e) = some (hyphenate e.1.toList, e.2.toList) :=
    Text.cut?_eq_some_iff.2
      ⟨h.declaration_eq, fun hm => h.noColon (mem_of_mem_hyphenate rfl (by decide) hm)⟩
  simp only [declaration?, hcut, h.trim_value, h.value_ne_nil, or_false, String.ofList_toList]

/-- No written declaration ends the list it stands in. -/
theorem notMem_declaration (h : IsRead e) : ';' ∉ declaration e := by
  rw [h.declaration_eq, List.mem_append, List.mem_cons]
  rintro (hm | hm | hm)
  · exact h.noSemicolon (mem_of_mem_hyphenate rfl (by decide) hm)
  · exact absurd hm (by decide)
  · exact h.value_noSemicolon hm

/-- A declaration with a steady name is read again as it is. -/
theorem declaration?_declaration_of_isSteadyName (h : IsRead e) (hs : IsSteadyName e.1.toList) :
    declaration? (declaration e) = some e := by
  rw [h.declaration?_declaration, h.name.camelCase_hyphenate hs, if_neg h.name.ne_nil,
    String.ofList_toList]

theorem lengthAgain_eq (h : IsRead e) :
    lengthAgain e = if camelCase (hyphenate e.1.toList) = [] then 0
      else (hyphenate (camelCase (hyphenate e.1.toList))).length + (e.2.toList.length + 1) := by
  rw [lengthAgain, h.declaration?_declaration]
  split
  · rfl
  · rw [Option.map_some, Option.getD_some, declaration, String.toList_ofList, h.trim_value,
      List.length_append, List.length_cons]

theorem length_declaration (h : IsRead e) :
    (declaration e).length = (hyphenate e.1.toList).length + (e.2.toList.length + 1) := by
  rw [h.declaration_eq, List.length_append, List.length_cons]

/-- A declaration does not become longer when it is read again. -/
theorem lengthAgain_le (h : IsRead e) : lengthAgain e ≤ (declaration e).length := by
  have hle := length_hyphenate_camelCase_hyphenate_le e.1.toList
  rw [h.lengthAgain_eq, h.length_declaration]
  split <;> omega

/-- A declaration that is as long when it is read again has a steady name. -/
theorem isSteadyName_of_le_lengthAgain (h : IsRead e) (hle : (declaration e).length ≤ lengthAgain e) :
    IsSteadyName e.1.toList := by
  rw [h.lengthAgain_eq, h.length_declaration] at hle
  refine h.name.isSteadyName_of_length_le ?_
  split at hle <;> omega

end IsRead

/-! ### Styles -/

/-- A style as it is read: it sets something, and by declarations as they are read. -/
structure IsReadStyle (s : Style) : Prop where
  ne_nil : s.entries ≠ []
  isRead : ∀ e ∈ s.entries, IsRead e

/-- What is read holds declarations as they are read. -/
theorem isReadStyle_of_parse? {text : String} {s : Style} (h : parse? text = some s) :
    s.IsReadStyle := by
  simp only [parse?] at h
  split at h
  · cases h
  · rename_i hne
    cases h
    refine ⟨fun he => hne (List.isEmpty_iff.2 he), fun e he => ?_⟩
    obtain ⟨p, hp, hd⟩ := List.mem_filterMap.1 (OrderedMap.mem_entries_ofList he)
    exact isRead_of_declaration? (fun hm => (Text.mem_of_mem_split hp hm).2 rfl) hd

theorem sum_map_filterMap {α β : Type} (f : β → Nat) (g : α → Option β) (l : List α) :
    ((l.filterMap g).map f).sum = (l.map fun a => ((g a).map f).getD 0).sum := by
  induction l with
  | nil => rfl
  | cons a l ih =>
    rw [List.filterMap_cons, List.map_cons, List.sum_cons, ← ih]
    cases g a with
    | none => exact (Nat.zero_add _).symm
    | some b => rfl

/-- All names in the style start with neither a capital nor a blank. -/
def IsSteady (s : Style) : Prop := ∀ e ∈ s.entries, IsSteadyName e.1.toList

namespace IsReadStyle

variable {s s' : Style}

/-- The written declarations of a style are cut apart again. -/
theorem split_css (h : s.IsReadStyle) :
    Text.split ';' s.css.toList = s.entries.map declaration := by
  rw [css, String.toList_ofList]
  refine Text.split_intercalate (fun he => h.ne_nil (List.map_eq_nil_iff.1 he)) fun d hd => ?_
  obtain ⟨e, he, rfl⟩ := List.mem_map.1 hd
  exact (h.isRead e he).notMem_declaration

/-- **A style of steady names is read again as it is.** -/
theorem parse?_css (h : s.IsReadStyle) (hs : s.IsSteady) : parse? s.css = some s := by
  have hread : (s.entries.map declaration).filterMap declaration? = s.entries := by
    rw [List.filterMap_map]
    refine (List.filterMap_congr fun e he => ?_).trans List.filterMap_some
    exact (h.isRead e he).declaration?_declaration_of_isSteadyName (hs e he)
  have hmap : OrderedMap.ofList ((Text.split ';' s.css.toList).filterMap declaration?) = s := by
    rw [h.split_css, hread]
    exact OrderedMap.ext (OrderedMap.entries_ofList s.nodup_keys)
  simp only [parse?, hmap]
  exact if_neg fun he => h.ne_nil (List.isEmpty_iff.1 he)

/-- **A style that is written the same again has steady names only**: what is cut off a name makes
the style shorter. -/
theorem isSteady_of_css_eq (h : s.IsReadStyle) (hread : parse? s.css = some s')
    (hcss : s'.css = s.css) : s.IsSteady := by
  have hsame : s'.entries.map declaration = s.entries.map declaration := by
    rw [← (isReadStyle_of_parse? hread).split_css, hcss, h.split_css]
  have hmap : s' = OrderedMap.ofList ((s.entries.map declaration).filterMap declaration?) := by
    simp only [parse?, h.split_css] at hread
    split at hread
    · cases hread
    · exact (Option.some.inj hread).symm
  have hle : (s.entries.map fun e => (declaration e).length).sum ≤
      (s.entries.map lengthAgain).sum := by
    calc (s.entries.map fun e => (declaration e).length).sum
        = (s'.entries.map fun e => (declaration e).length).sum := by
          simp only [← List.map_map (g := List.length) (f := declaration), ← Function.comp_def, hsame]
      _ ≤ ((((s.entries.map declaration).filterMap declaration?).map
            fun e => (declaration e).length)).sum := by
          rw [hmap]
          exact OrderedMap.sum_map_ofList_le _ _
      _ = (s.entries.map lengthAgain).sum := by
          rw [List.filterMap_map, sum_map_filterMap]
          rfl
  by_contra hs
  simp only [IsSteady, not_forall] at hs
  obtain ⟨e, he, hns⟩ := hs
  exact absurd hle (Nat.not_le.2 (List.sum_lt_sum _ _ (fun d hd => (h.isRead d hd).lengthAgain_le)
    ⟨e, he, Nat.lt_of_not_le fun hle => hns ((h.isRead e he).isSteadyName_of_le_lengthAgain hle)⟩))

end IsReadStyle

end DocMarkup.Style
