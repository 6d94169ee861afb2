import DocMarkup.Json.Writer
import DocMarkup.Proofs.Json.Reading

/-!
# The compact text of a value, read back

The compact text of a value is one of its texts, if each of its numbers is written as a numeral
that stands for it. Integers of 64 bits are; so every value without doubles is read back from its
compact text as it was.

## Main definitions

* `Json.Value.numbers` : the numbers in a value.
* `Json.Number.IsWritten` : the written form of a number stands for it.

## Main results

* `Json.Number.isWritten_natural` : natural numbers are written so.
* `Json.Value.isText_compact` : the compact text is a text of the value.
* `Json.read_compact`, `Json.read_length_compact` : reading the compact text.
-/

namespace DocMarkup.Json

/-! ### Strings -/

theorem digitValue?_digitChar {n : Nat} (h : n < 16) :
    Text.digitValue? (Nat.digitChar n) = some n := by
  revert n
  decide

/-- A control character by its number, in four digits. -/
theorem hex4_control {c : Char} (h : c.toNat < 0x20) :
    Hex4 ['0', '0', Nat.digitChar (c.toNat / 16), Nat.digitChar (c.toNat % 16)] c.toNat := by
  have hnumber : c.toNat = ((0 * 16 + 0) * 16 + c.toNat / 16) * 16 + c.toNat % 16 := by omega
  have hdigits := Hex4.mk (digitValue?_digitChar (n := 0) (by decide))
    (digitValue?_digitChar (n := 0) (by decide))
    (digitValue?_digitChar (n := c.toNat / 16) (by omega))
    (digitValue?_digitChar (n := c.toNat % 16) (by omega))
  rwa [← hnumber] at hdigits

theorem StringText.escapedChar {cs text : List Char} (h : StringText cs text) (c : Char) :
    StringText (c :: cs) (Json.escapedChar c ++ text) := by
  have hshort {letter : Char} (hletter : (letter, c) ∈ shortEscapes) :
      StringText (c :: cs) (['\\', letter] ++ text) := .short hletter h
  unfold Json.escapedChar
  split_ifs with hquote hbackslash hb hf hn hr ht hcontrol
  · exact hshort (by rw [hquote]; decide)
  · exact hshort (by rw [hbackslash]; decide)
  · exact hshort (by rw [hb]; decide)
  · exact hshort (by rw [hf]; decide)
  · exact hshort (by rw [hn]; decide)
  · exact hshort (by rw [hr]; decide)
  · exact hshort (by rw [ht]; decide)
  · exact .unit (hex4_control hcontrol) h
  · exact .char (by omega) hquote hbackslash h

/-- A string between quotation marks is one of its written forms. -/
theorem tokenText_quotedChars (s : String) : TokenText (.string s) (quotedChars s) := by
  refine .string ?_
  induction s.toList with
  | nil => exact .nil
  | cons c cs ih => exact ih.escapedChar c

/-! ### Integers -/

theorem isDigits_digits (n : Nat) : IsDigits (Decimal.digits n) :=
  ⟨Nat.toDigits_ne_nil, fun _ => Nat.isDigit_of_mem_toDigits (by decide) (by decide)⟩

/-- A numeral starts with a zero only where it stands for zero. -/
theorem eq_zero_of_head_digits {n : Nat} (h : (Decimal.digits n).head? = some '0') : n = 0 := by
  induction n using Nat.strongRecOn with
  | ind n ih =>
    by_cases hn : n < 10
    · rw [Decimal.digits, Nat.toDigits_of_lt_base hn, List.head?_cons, Option.some.injEq] at h
      have hcode := congrArg Char.toNat h
      rw [Nat.toNat_digitChar_of_lt_ten hn] at hcode
      exact Nat.add_left_cancel (n := 48) hcode
    · have hten : 10 ≤ n := by omega
      rw [Decimal.digits, Nat.toDigits_of_base_le (by decide) hten,
        List.head?_append_of_ne_nil _ Nat.toDigits_ne_nil] at h
      have hzero := ih (n / 10) (by omega) h
      omega

theorem digits_no_zero (n : Nat) (c : Char) (rest : List Char) :
    Decimal.digits n ≠ '0' :: c :: rest := by
  intro h
  obtain rfl : n = 0 := eq_zero_of_head_digits (by rw [h, List.head?_cons])
  cases h

theorem accumulate_eq {bound n : Nat} {ds : List Char} (h : Nat.ofDigitChars 10 ds n ≤ bound) :
    accumulate bound n ds = (Nat.ofDigitChars 10 ds n, []) := by
  induction ds generalizing n with
  | nil => rfl
  | cons c ds ih =>
    rw [Nat.ofDigitChars_cons, Nat.mul_comm] at h
    have hle : n * 10 + digitValue c ≤ bound := by
      refine Nat.le_trans ?_ h
      rw [Nat.ofDigitChars_eq_ofDigitChars_zero]
      exact Nat.le_add_right_of_le (Nat.le_mul_of_pos_left _ (Nat.pow_pos (by decide)))
    rw [accumulate, if_pos hle, Nat.ofDigitChars_cons, Nat.mul_comm 10 n]
    exact ih h

theorem accumulate_digits {n : Nat} (h : n ≤ maxNatural) :
    accumulate maxNatural 0 (Decimal.digits n) = (n, []) := by
  have hvalue : Nat.ofDigitChars 10 (Decimal.digits n) 0 = n := Nat.ofDigitChars_ten_toDigits
  rw [accumulate_eq (hvalue.trans_le h), hvalue]

/-- A numeral without fraction and exponent. -/
theorem numeralText_digits (negative : Bool) (n : Nat) :
    NumeralText ⟨negative, Decimal.digits n, none, none⟩ [] [] :=
  ⟨isDigits_digits n, digits_no_zero n, .none, .none⟩

namespace Number

/-- What is written for the number is a numeral that stands for it. -/
def IsWritten (n : Number) : Prop := TokenText (.number n) n.text.toList

theorem isWritten_natural (n : UInt64) : (natural n).IsWritten := by
  have hvalue : (Numeral.mk false (Decimal.digits n.toNat) none none).number? =
      some (natural n) := by
    rw [Numeral.number?, accumulate_digits (Nat.le_pred_of_lt n.toNat_lt)]
    change some (natural n.toNat.toUInt64) = _
    rw [Nat.toUInt64_eq, UInt64.ofNat_toNat]
  have htext : (natural n).text.toList = Decimal.digits n.toNat ++ [] ++ [] := by
    rw [text, Decimal.text, String.toList_ofList, List.append_nil, List.append_nil]
  rw [IsWritten, htext]
  exact .number hvalue (numeralText_digits false n.toNat)

end Number

/-! ### Values -/

namespace Value

mutual

/-- The numbers in a value, in the order of its text. -/
def numbers : Value → List Number
  | .number n => [n]
  | .array items => numbersOfItems items
  | .object members => numbersOfMembers members
  | _ => []

/-- The numbers in items. -/
def numbersOfItems : List Value → List Number
  | [] => []
  | v :: rest => v.numbers ++ numbersOfItems rest

/-- The numbers in the values of members. -/
def numbersOfMembers : List (String × Value) → List Number
  | [] => []
  | (_, v) :: rest => v.numbers ++ numbersOfMembers rest

end

theorem numbersOfItems_eq_flatMap (items : List Value) :
    numbersOfItems items = items.flatMap numbers := by
  induction items with
  | nil => rfl
  | cons v items ih => rw [numbersOfItems, ih, List.flatMap_cons]

theorem numbersOfMembers_eq_flatMap (members : List (String × Value)) :
    numbersOfMembers members = members.flatMap fun m => m.2.numbers := by
  induction members with
  | nil => rfl
  | cons m members ih => rw [numbersOfMembers, ih, List.flatMap_cons]

theorem tokensText_cons {t : Token} {ts : List Token} {text rest : List Char}
    (ht : TokenText t text) (h : TokensText ts rest) : TokensText (t :: ts) (text ++ rest) := by
  have hblanks : ∀ c ∈ ([] : List Char), isSpace c = true := fun c hc => by cases hc
  exact .cons hblanks ht h

mutual

/-- The compact text of a value before a text of what comes after it. -/
theorem tokensText_chars : ∀ (v : Value) {ts : List Token} {rest : List Char},
    (∀ n ∈ v.numbers, n.IsWritten) → TokensText ts rest →
    TokensText (v.tokens ++ ts) (v.chars ++ rest)
  | .null, _, _, _, h => tokensText_cons .null h
  | .bool true, _, _, _, h => tokensText_cons .true h
  | .bool false, _, _, _, h => tokensText_cons .false h
  | .number n, _, _, hn, h => tokensText_cons (hn n (List.mem_singleton_self n)) h
  | .string s, _, _, _, h => tokensText_cons (tokenText_quotedChars s) h
  | .array [], _, rest, _, h => by
    change TokensText _ (['['] ++ ([']'] ++ rest))
    exact tokensText_cons .openArray (tokensText_cons .closeArray h)
  | .object [], _, rest, _, h => by
    change TokensText _ (['{'] ++ (['}'] ++ rest))
    exact tokensText_cons .openObject (tokensText_cons .closeObject h)
  | .array (v :: vs), ts, rest, hn, h => by
    have hv := tokensText_chars v (fun n hm => hn n (List.mem_append_left _ hm))
      (tokensText_itemChars vs (fun n hm => hn n (List.mem_append_right _ hm)) h)
    rw [tokens, chars]
    simp only [List.cons_append, List.append_assoc]
    exact tokensText_cons .openArray hv
  | .object ((k, v) :: ms), ts, rest, hn, h => by
    have hv := tokensText_chars v (fun n hm => hn n (List.mem_append_left _ hm))
      (tokensText_memberChars ms (fun n hm => hn n (List.mem_append_right _ hm)) h)
    rw [tokens, chars]
    simp only [List.cons_append, List.append_assoc]
    exact tokensText_cons .openObject (tokensText_cons (tokenText_quotedChars k)
      (tokensText_cons .colon hv))

theorem tokensText_itemChars : ∀ (vs : List Value) {ts : List Token} {rest : List Char},
    (∀ n ∈ numbersOfItems vs, n.IsWritten) → TokensText ts rest →
    TokensText (moreItems vs ++ ts) (itemChars vs ++ rest)
  | [], _, _, _, h => tokensText_cons .closeArray h
  | v :: vs, ts, rest, hn, h => by
    have hv := tokensText_chars v (fun n hm => hn n (List.mem_append_left _ hm))
      (tokensText_itemChars vs (fun n hm => hn n (List.mem_append_right _ hm)) h)
    rw [moreItems, itemChars]
    simp only [List.cons_append, List.append_assoc]
    exact tokensText_cons .comma hv

theorem tokensText_memberChars : ∀ (ms : List (String × Value)) {ts : List Token}
    {rest : List Char}, (∀ n ∈ numbersOfMembers ms, n.IsWritten) → TokensText ts rest →
    TokensText (moreMembers ms ++ ts) (memberChars ms ++ rest)
  | [], _, _, _, h => tokensText_cons .closeObject h
  | (k, v) :: ms, ts, rest, hn, h => by
    have hv := tokensText_chars v (fun n hm => hn n (List.mem_append_left _ hm))
      (tokensText_memberChars ms (fun n hm => hn n (List.mem_append_right _ hm)) h)
    rw [moreMembers, memberChars]
    simp only [List.cons_append, List.append_assoc]
    exact tokensText_cons .comma (tokensText_cons (tokenText_quotedChars k)
      (tokensText_cons .colon hv))

end

/-- The compact text of a value is a text of it, if its numbers are written as they are. -/
theorem isText_compact {v : Value} (h : ∀ n ∈ v.numbers, n.IsWritten) : v.IsText v.compact := by
  have hchars : TokensText (v.tokens ++ []) (v.chars ++ []) :=
    tokensText_chars v h (.nil fun c hc => by cases hc)
  rwa [List.append_nil, List.append_nil, ← String.toList_ofList (l := v.chars)] at hchars

mutual

/-- Every container has a character of its own, so that no value is nested deeper than its text is
long. -/
theorem depth_le_length_chars : ∀ v : Value, v.depth ≤ v.chars.length
  | .null | .bool _ | .number _ | .string _ => Nat.zero_le _
  | .array [] | .object [] => by decide
  | .array (v :: vs) => by
    have hv := depth_le_length_chars v
    have hvs := depthOfItems_le_length_itemChars vs
    simp only [depth, depthOfItems, chars, List.cons_append, List.length_cons, List.length_append]
    omega
  | .object ((k, v) :: ms) => by
    have hv := depth_le_length_chars v
    have hms := depthOfMembers_le_length_memberChars ms
    simp only [depth, depthOfMembers, chars, List.cons_append, List.length_cons,
      List.length_append]
    omega

theorem depthOfItems_le_length_itemChars : ∀ vs : List Value,
    depthOfItems vs ≤ (itemChars vs).length
  | [] => Nat.zero_le _
  | v :: vs => by
    have hv := depth_le_length_chars v
    have hvs := depthOfItems_le_length_itemChars vs
    simp only [depthOfItems, itemChars, List.cons_append, List.length_cons, List.length_append]
    omega

theorem depthOfMembers_le_length_memberChars : ∀ ms : List (String × Value),
    depthOfMembers ms ≤ (memberChars ms).length
  | [] => Nat.zero_le _
  | (k, v) :: ms => by
    have hv := depth_le_length_chars v
    have hms := depthOfMembers_le_length_memberChars ms
    simp only [depthOfMembers, memberChars, List.cons_append, List.length_cons, List.length_append]
    omega

end

end Value

/-- The compact text of a value is read back as the value. -/
theorem read_compact {v : Value} (h : ∀ n ∈ v.numbers, n.IsWritten) {limit : Nat}
    (hdepth : v.depth ≤ limit) : read limit v.compact = .ok v :=
  read_of_isText (Value.isText_compact h) hdepth

/-- The compact text of a value is read back if no more nesting is allowed than it is long. -/
theorem read_length_compact {v : Value} (h : ∀ n ∈ v.numbers, n.IsWritten) :
    read v.compact.toList.length v.compact = .ok v := by
  refine read_compact h ?_
  rw [Value.compact, String.toList_ofList]
  exact v.depth_le_length_chars

end DocMarkup.Json
