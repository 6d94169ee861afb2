import DocMarkup.Proofs.RawHtml.AttributeScan
import DocMarkup.Proofs.RawHtml.Escaping
import DocMarkup.Proofs.Text.Letter

/-!
# Written attributes are read back

The attributes that are written in a start tag, read as an attribute text. A written name holds no
delimiter and a written value no quotation mark, so each attribute is read as one name with its
value: the name in small letters, the value as it was before it was escaped.

## Main results

* `RawHtml.attributeList_attributeChars` : written attributes are read back.
* `RawHtml.not_mem_attributeChars` : no written attribute ends the tag it stands in.
-/

namespace DocMarkup

open Html (attributeChars escapeChars isAttributeName)

/-- The characters of a name that can be written, which is not empty. -/
theorem Html.isAttributeName_iff {s : String} :
    isAttributeName s = true ↔ ∃ c cs, s.toList = c :: cs ∧
      (c.isAlpha = true ∨ c = '_' ∨ c = ':') ∧
      ∀ d ∈ cs, d.isAlphanum = true ∨ d = '-' ∨ d = '_' ∨ d = ':' ∨ d = '.' := by
  unfold isAttributeName
  cases s.toList with
  | nil => simp
  | cons c cs =>
    simp only [Bool.and_eq_true, Bool.or_eq_true, decide_eq_true_eq, List.all_eq_true, or_assoc]
    constructor
    · exact fun h => ⟨c, cs, rfl, h⟩
    · rintro ⟨c', cs', he, h⟩
      cases he
      exact h

namespace RawHtml

/-- A name that can be written is a run of characters without delimiters. -/
theorem not_isDelimiter_of_isAttributeName {s : String} (h : isAttributeName s = true) :
    ∃ c cs, s.toList = c :: cs ∧ ∀ d ∈ c :: cs, isDelimiter d = false := by
  obtain ⟨c, cs, hs, hc, hcs⟩ := Html.isAttributeName_iff.1 h
  refine ⟨c, cs, hs, fun d hd => ?_⟩
  rcases List.mem_cons.1 hd with rfl | hd
  · have hd : d.isAlphanum = true ∨ d = '-' ∨ d = '_' ∨ d = ':' ∨ d = '.' := by
      rcases hc with hc | rfl | rfl
      · exact Or.inl (by simp [Char.isAlphanum, hc])
      all_goals simp
    exact not_isDelimiter hd
  · exact not_isDelimiter (hcs d hd)

theorem attributeList_cons_delimiter {c : Char} (h : isDelimiter c = true) (rest : List Char) :
    attributeList (c :: rest) = attributeList rest := by
  rw [attributeList_eq_scanned, attributeList_eq_scanned, scanned.eq_def]
  exact if_pos h

theorem attributeList_nil : attributeList [] = [] := rfl

/-- A quoted value after an equals sign, whatever follows it. -/
theorem value?_quoted {v : List Char} (h : '"' ∉ v) (rest : List Char) :
    value? ('=' :: '"' :: (v ++ '"' :: rest)) = some (v, rest) := by
  have hv : Text.cut? '"' (v ++ '"' :: rest) = some (v, rest) := Text.cut?_eq_some_iff.2 ⟨rfl, h⟩
  have he : ('=' :: '"' :: (v ++ '"' :: rest)).dropWhile Text.isBlank =
      '=' :: '"' :: (v ++ '"' :: rest) := List.dropWhile_cons_of_neg (by decide)
  have hq : ('"' :: (v ++ '"' :: rest)).dropWhile Text.isBlank = '"' :: (v ++ '"' :: rest) :=
    List.dropWhile_cons_of_neg (by decide)
  simp only [value?, he, hq, valueBody?, hv]

/-- A name with a quoted value is read as one attribute, whatever follows it. -/
theorem attributeList_quoted {c : Char} {cs v : List Char}
    (hname : ∀ d ∈ c :: cs, isDelimiter d = false) (hv : '"' ∉ v) (rest : List Char) :
    attributeList (c :: cs ++ '=' :: '"' :: (v ++ '"' :: rest)) =
      (lowered (c :: cs), String.ofList (Entity.decodeChars v)) :: attributeList rest := by
  have hcs : ∀ d ∈ cs, (!isDelimiter d) = true := fun d hd => by
    rw [hname d (List.mem_cons_of_mem c hd)]
    rfl
  have htake : (cs ++ '=' :: '"' :: (v ++ '"' :: rest)).takeWhile (fun d => !isDelimiter d) =
      cs := by
    rw [List.takeWhile_append_of_pos hcs, List.takeWhile_cons_of_neg (by decide), List.append_nil]
  have hdrop : (cs ++ '=' :: '"' :: (v ++ '"' :: rest)).dropWhile (fun d => !isDelimiter d) =
      '=' :: '"' :: (v ++ '"' :: rest) := by
    rw [List.dropWhile_append_of_pos hcs, List.dropWhile_cons_of_neg (by decide)]
  have hc : ¬ isDelimiter c = true := by rw [hname c List.mem_cons_self]; exact Bool.false_ne_true
  rw [List.cons_append, attributeList_eq_scanned, attributeList_eq_scanned, scanned.eq_def]
  simp only [if_neg hc]
  split
  · rename_i v' after h
    rw [hdrop, value?_quoted hv] at h
    cases h
    rw [htake]
  · rename_i h
    rw [hdrop, value?_quoted hv] at h
    cases h

/-- An attribute as it is read from a start tag: its name in small letters. -/
def readBack (a : String × String) : String × String := (lowered a.1.toList, a.2)

theorem attributeList_attributeChars_append {a : String × String}
    (h : isAttributeName a.1 = true) (rest : List Char) :
    attributeList (attributeChars a ++ rest) = readBack a :: attributeList rest := by
  obtain ⟨c, cs, hs, hname⟩ := not_isDelimiter_of_isAttributeName h
  have hq : '"' ∉ escapeChars a.2.toList := Html.not_mem_escapeChars (by simp) _
  have hchars : attributeChars a ++ rest =
      ' ' :: (c :: cs ++ '=' :: '"' :: (escapeChars a.2.toList ++ '"' :: rest)) := by
    simp [attributeChars, hs]
  rw [hchars, attributeList_cons_delimiter (by decide), attributeList_quoted hname hq,
    Entity.decodeChars_escapeChars, readBack, hs, String.ofList_toList]

/-- **Written attributes are read back**, the names in small letters. -/
theorem attributeList_attributeChars {as : List (String × String)}
    (h : ∀ a ∈ as, isAttributeName a.1 = true) :
    attributeList (as.flatMap attributeChars) = as.map readBack := by
  induction as with
  | nil => exact attributeList_nil
  | cons a as ih =>
    rw [List.flatMap_cons, attributeList_attributeChars_append (h a List.mem_cons_self),
      ih fun b hb => h b (List.mem_cons_of_mem a hb), List.map_cons]

/-- A written attribute does not end its tag. -/
theorem not_mem_attributeChars {a : String × String} (h : isAttributeName a.1 = true) :
    '>' ∉ attributeChars a := by
  obtain ⟨c, cs, hs, hname⟩ := not_isDelimiter_of_isAttributeName h
  have hn : '>' ∉ c :: cs := fun hm => by
    have hd := hname '>' hm
    revert hd
    decide
  have hv : '>' ∉ escapeChars a.2.toList := Html.not_mem_escapeChars (by simp) _
  rw [attributeChars, hs]
  intro hm
  simp only [List.cons_append, List.mem_cons, List.mem_append, List.not_mem_nil] at hn hv hm
  simp_all

/-- A written attribute ends in a quotation mark. -/
theorem attributeChars_eq_append (a : String × String) :
    ∃ s, attributeChars a = ' ' :: s ++ ['"'] :=
  ⟨a.1.toList ++ '=' :: '"' :: escapeChars a.2.toList, by simp [attributeChars]⟩

end RawHtml

/-- The attribute that is written for a property: its name can be written, and the value says
something. -/
theorem Html.attribute?_eq_some_iff {e : String × PropValue} {name value : String} :
    attribute? e = some (name, value) ↔
      isAttributeName name = true ∧ name = attributeName e.1 ∧
        attributeValue? e.2 = some value := by
  simp only [attribute?]
  by_cases h : isAttributeName (attributeName e.1) = true
  · rw [if_pos h, Option.map_eq_some_iff]
    constructor
    · rintro ⟨v, hv, heq⟩
      cases heq
      exact ⟨h, rfl, hv⟩
    · rintro ⟨-, rfl, hv⟩
      exact ⟨value, hv, rfl⟩
  · rw [if_neg h]
    refine iff_of_false (Option.some_ne_none _).symm ?_
    rintro ⟨hname, rfl, -⟩
    exact h hname

/-- Only attributes with a name that can be written are written. -/
theorem Html.isAttributeName_of_mem_attributes {p : Props} {a : String × String}
    (h : a ∈ Html.attributes p) : isAttributeName a.1 = true := by
  obtain ⟨e, -, he⟩ := List.mem_filterMap.1 h
  exact (attribute?_eq_some_iff.1 he).1

end DocMarkup
