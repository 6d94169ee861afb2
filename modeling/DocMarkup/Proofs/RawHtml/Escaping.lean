import DocMarkup.Markup.Writer
import DocMarkup.RawHtml.Entity

/-!
# Escaping and character references

The writer of markup escapes a text character by character, and the reader of raw HTML replaces
character references in one pass. Reading an escaped text gives the text back, whatever follows
it; so an escaped text is read as it was, and never once too often.

## Main results

* `Entity.decodeChars_escapeChars_append`, `Entity.decodeChars_escapeChars` : escaped text is
  read back.
* `Html.not_mem_escapeChars` : an escaped text can end neither a tag nor a quoted value.
-/

namespace DocMarkup

namespace Html

theorem escapeChars_cons (c : Char) (s : List Char) :
    escapeChars (c :: s) = escapeChar c ++ escapeChars s := List.flatMap_cons

theorem escapeChars_append (s t : List Char) :
    escapeChars (s ++ t) = escapeChars s ++ escapeChars t := List.flatMap_append

/-- The escaped form of a character: one of the five references, or the character itself. -/
theorem escapeChar_cases (c : Char) :
    (c = '&' ∧ escapeChar c = "&amp;".toList) ∨ (c = '<' ∧ escapeChar c = "&lt;".toList) ∨
      (c = '>' ∧ escapeChar c = "&gt;".toList) ∨ (c = '"' ∧ escapeChar c = "&quot;".toList) ∨
      (c = '\'' ∧ escapeChar c = "&#x27;".toList) ∨
      (c ≠ '&' ∧ c ≠ '<' ∧ c ≠ '>' ∧ c ≠ '"' ∧ escapeChar c = [c]) := by
  unfold escapeChar
  split <;> simp_all

theorem escapeChar_ne_nil (c : Char) : escapeChar c ≠ [] := by
  unfold escapeChar
  split <;> simp

theorem escapeChars_eq_nil_iff {s : List Char} : escapeChars s = [] ↔ s = [] := by
  cases s with
  | nil => simp [escapeChars]
  | cons c s => simp [escapeChars_cons, escapeChar_ne_nil]

/-- No angle bracket and no quotation mark stands in an escaped text. -/
theorem not_mem_escapeChars {d : Char} (hd : d = '<' ∨ d = '>' ∨ d = '"') (s : List Char) :
    d ∉ escapeChars s := by
  induction s with
  | nil => simp [escapeChars]
  | cons c s ih =>
    rw [escapeChars_cons, List.mem_append, not_or]
    refine ⟨?_, ih⟩
    rcases escapeChar_cases c with
      ⟨-, h⟩ | ⟨-, h⟩ | ⟨-, h⟩ | ⟨-, h⟩ | ⟨-, h⟩ | ⟨-, hl, hg, hq, h⟩
    case inr.inr.inr.inr.inr =>
      rw [h, List.mem_singleton]
      rintro rfl
      rcases hd with hd | hd | hd
      · exact hl hd
      · exact hg hd
      · exact hq hd
    all_goals rw [h]; rcases hd with rfl | rfl | rfl <;> decide

end Html

namespace Entity

open Html (escapeChar escapeChars)

/-- A reference at the front of a text is read as its character. -/
theorem decodeChars_cons_of_body? {s body rest : List Char} {c : Char}
    (h : body? s = some (body, rest)) (hc : resolve? body = some c) :
    decodeChars ('&' :: s) = c :: decodeChars rest := by
  rw [decodeChars_eq_replace, decodeChars_eq_replace, replace_of_body? h, hc]

/-- A character that is no ampersand is read as itself. -/
theorem decodeChars_cons_of_ne {c : Char} (h : c ≠ '&') (s : List Char) :
    decodeChars (c :: s) = c :: decodeChars s := by
  rw [decodeChars_eq_replace, decodeChars_eq_replace, replace_cons_of_ne h]

/-- An escaped character is read back, whatever follows it. -/
theorem decodeChars_escapeChar_append (c : Char) (rest : List Char) :
    decodeChars (escapeChar c ++ rest) = c :: decodeChars rest := by
  rcases Html.escapeChar_cases c with
    ⟨rfl, h⟩ | ⟨rfl, h⟩ | ⟨rfl, h⟩ | ⟨rfl, h⟩ | ⟨rfl, h⟩ | ⟨hc, -, -, -, h⟩
  case inr.inr.inr.inr.inr => rw [h]; exact decodeChars_cons_of_ne hc rest
  all_goals rw [h]; exact decodeChars_cons_of_body? rfl rfl

/-- **Escaped text is read back**, whatever follows it. -/
theorem decodeChars_escapeChars_append (s rest : List Char) :
    decodeChars (escapeChars s ++ rest) = s ++ decodeChars rest := by
  induction s with
  | nil => rfl
  | cons c s ih =>
    rw [Html.escapeChars_cons, List.append_assoc, decodeChars_escapeChar_append, ih,
      List.cons_append]

theorem decodeChars_escapeChars (s : List Char) : decodeChars (escapeChars s) = s := by
  have h := decodeChars_escapeChars_append s []
  rwa [List.append_nil, decodeChars_eq_replace [], replace, List.append_nil] at h

end Entity

end DocMarkup
