import DocMarkup.Proofs.Text.Pieces
import DocMarkup.RawHtml.Attribute

/-!
# Attributes without backtracking

Matching the pattern of an attribute may go back and try fewer characters, but this never helps:
where a run of blanks or of characters in quotation marks ends, what has to follow it starts with no
character of the run; and behind a name a match has always succeeded. So every run can be read once,
and the attributes of a text are what is read by going through it from its start to its end.

## Main definitions

* `RawHtml.valueBody?`, `RawHtml.value?` : a value, and the value that follows a name.
* `RawHtml.scanned` : the attributes that are read.

## Main results

* `Text.Pattern.takeMany_of_none`, `Text.Pattern.takeMany_of_some` : runs that can be read once.
* `RawHtml.attributeList_eq_scanned` : the matches of the pattern are the attributes that are read.
-/

namespace DocMarkup

namespace Text

/-- What stands in front of the rest of a text. -/
theorem take_length_sub (run rest : List Char) :
    (run ++ rest).take ((run ++ rest).length - rest.length) = run := by
  rw [List.length_append, Nat.add_sub_cancel, List.take_left]

theorem drop_length_sub {rest s : List Char} (h : rest <:+ s) :
    s.drop (s.length - rest.length) = rest := by
  obtain ⟨run, rfl⟩ := h
  rw [List.length_append, Nat.add_sub_cancel, List.drop_left]

namespace Pattern

variable {α : Type} {p : Char → Bool} {next : List Char → Option α}

/-- A run is taken as a whole if what follows it cannot start with a character of the run. -/
theorem takeMany_of_none (h : ∀ c rest, p c = true → next (c :: rest) = none) (s : List Char) :
    takeMany p next s = next (s.dropWhile p) := by
  induction s with
  | nil => rfl
  | cons c s ih =>
    by_cases hc : p c = true
    · rw [takeMany, if_pos hc, List.dropWhile_cons_of_pos hc, ih, h c s hc]
      cases next (s.dropWhile p) <;> rfl
    · rw [takeMany, if_neg hc, List.dropWhile_cons_of_neg hc]

/-- A run is taken as a whole if what follows it then succeeds. -/
theorem takeMany_of_some {s : List Char} {a : α} (h : next (s.dropWhile p) = some a) :
    takeMany p next s = some a := by
  induction s with
  | nil => exact h
  | cons c s ih =>
    by_cases hc : p c = true
    · rw [List.dropWhile_cons_of_pos hc] at h
      rw [takeMany, if_pos hc, ih h]
      rfl
    · rw [List.dropWhile_cons_of_neg hc] at h
      rwa [takeMany, if_neg hc]

/-- Skipping characters is searching behind them. -/
theorem findFrom_eq_drop (pattern : Pattern) (skip : Nat) (s : List Char) :
    pattern.findFrom skip s = pattern.findAll (s.drop skip) := by
  induction skip generalizing s with
  | zero => rfl
  | succ skip ih =>
    cases s with
    | nil => rfl
    | cons c s => exact ih s

variable {pattern : Pattern} {c : Char} {rest : List Char}

theorem findAll_cons_of_none (h : pattern.matchStart? (c :: rest) = none) :
    pattern.findAll (c :: rest) = pattern.findAll rest := by
  rw [findAll, findFrom, h]
  rfl

theorem findAll_cons_of_some {groups : Groups} {behind : List Char}
    (h : pattern.matchStart? (c :: rest) = some (groups, behind)) (hbehind : behind <:+ rest) :
    pattern.findAll (c :: rest) = groups :: pattern.findAll behind := by
  rw [findAll, findFrom, h]
  exact congrArg (groups :: ·) ((findFrom_eq_drop _ _ _).trans (by rw [drop_length_sub hbehind]))

end Pattern

end Text

namespace RawHtml

open Text (Groups Pattern)

/-- A value at the start of the text, complete, and the text after it. -/
def valueBody? (s : List Char) : Option (List Char × List Char) :=
  match s with
  | '"' :: rest => Text.cut? '"' rest
  | '\'' :: rest => Text.cut? '\'' rest
  | s =>
    match s.takeWhile isBareChar with
    | [] => none
    | v => some (v, s.dropWhile isBareChar)

/-- The value that follows a name, with the text after it: an equals sign between blanks, and a
complete value. -/
def value? (s : List Char) : Option (List Char × List Char) :=
  match s.dropWhile Text.isBlank with
  | '=' :: rest => valueBody? (rest.dropWhile Text.isBlank)
  | _ => none

theorem suffix_valueBody? {s v rest : List Char} (h : valueBody? s = some (v, rest)) :
    rest <:+ s := by
  have hcut {q : Char} {s : List Char} (h : Text.cut? q s = some (v, rest)) : rest <:+ q :: s := by
    rw [(Text.cut?_eq_some_iff.1 h).1]
    exact ⟨q :: (v ++ [q]), by simp⟩
  unfold valueBody? at h
  split at h
  · exact hcut h
  · exact hcut h
  · split at h
    · cases h
    · cases h
      exact List.dropWhile_suffix _

theorem suffix_value? {s v rest : List Char} (h : value? s = some (v, rest)) : rest <:+ s := by
  unfold value? at h
  split at h
  · rename_i r hr
    have hvalue := (suffix_valueBody? h).trans (List.dropWhile_suffix _)
    exact (hvalue.trans (List.suffix_cons _ _)).trans (hr ▸ List.dropWhile_suffix _)
  · cases h

/-- The attributes that are read from a text, in order. -/
def scanned (s : List Char) : List (String × String) :=
  match s with
  | [] => []
  | c :: rest =>
    if isDelimiter c then scanned rest
    else
      let name := lowered (c :: rest.takeWhile fun d => !isDelimiter d)
      have : (rest.dropWhile fun d => !isDelimiter d).length ≤ rest.length :=
        (List.dropWhile_sublist _).length_le
      match h : value? (rest.dropWhile fun d => !isDelimiter d) with
      | some (v, after) =>
        have := (suffix_value? h).length_le
        (name, String.ofList (Entity.decodeChars v)) :: scanned after
      | none => (name, "") :: scanned (rest.dropWhile fun d => !isDelimiter d)
termination_by s.length

/-! ### Matching the pattern -/

/-- A match that nothing has to follow. -/
def found (groups : Groups) (rest : List Char) : Option (Groups × List Char) := some (groups, rest)

/-- Behind a quotation mark stands a value if there is another one. -/
theorem match?_quotedPattern (i : Nat) (mark : Char) (groups : Groups) (s : List Char) :
    (quotedPattern i mark).match? groups (mark :: s) found =
      (Text.cut? mark s).map fun p => ((i, p.1) :: groups, p.2) := by
  simp only [quotedPattern, Pattern.match?, decide_true, if_true]
  rw [Pattern.takeMany_of_none fun c rest hc => if_neg (by simpa using hc)]
  cases hcut : Text.cut? mark s with
  | none =>
    have hmark : ∀ c ∈ s, decide (c ≠ mark) = true := fun c hc => by
      have hne : mark ∉ s := Text.cut?_eq_none_iff.1 hcut
      exact decide_eq_true fun he => hne (he ▸ hc)
    rw [List.dropWhile_eq_nil_iff.2 hmark]
    rfl
  | some cut =>
    obtain ⟨rfl, hmark⟩ := Text.cut?_eq_some_iff.1 hcut
    have hrun : ∀ c ∈ cut.1, decide (c ≠ mark) = true := fun c hc =>
      decide_eq_true fun he => hmark (he ▸ hc)
    rw [Text.dropWhile_run hrun (by simp), Text.take_length_sub]
    simp [found]

theorem match?_quotedPattern_of_ne {i : Nat} {mark : Char} {s : List Char} (groups : Groups)
    (h : ∀ rest, s ≠ mark :: rest) : (quotedPattern i mark).match? groups s found = none := by
  cases s with
  | nil => rfl
  | cons c s =>
    have hc : ¬ decide (c = mark) = true := fun hc => h s (by rw [of_decide_eq_true hc])
    simp only [quotedPattern, Pattern.match?]
    exact if_neg hc

/-- A run of characters of a class is matched as a whole if what follows it then succeeds. -/
theorem match?_run {α : Type} {p : Char → Bool} (i : Nat) {groups : Groups} {c : Char}
    {rest : List Char} {next : Groups → List Char → Option α} {a : α} (hc : p c = true)
    (h : next ((i, c :: rest.takeWhile p) :: groups) (rest.dropWhile p) = some a) :
    (Pattern.group i (.many1 p)).match? groups (c :: rest) next = some a := by
  have htake : (c :: rest).take ((c :: rest).length - (rest.dropWhile p).length) =
      c :: rest.takeWhile p := by
    have hsplit : c :: rest.takeWhile p ++ rest.dropWhile p = c :: rest :=
      congrArg (c :: ·) List.takeWhile_append_dropWhile
    have htake := Text.take_length_sub (c :: rest.takeWhile p) (rest.dropWhile p)
    rwa [hsplit] at htake
  simp only [Pattern.many1, Pattern.match?]
  rw [if_pos hc]
  exact Pattern.takeMany_of_some (by rw [htake]; exact h)

theorem match?_run_of_neg {α : Type} {p : Char → Bool} {i : Nat} {groups : Groups} {s : List Char}
    {next : Groups → List Char → Option α} (h : ∀ c ∈ s.head?, p c = false) :
    (Pattern.group i (.many1 p)).match? groups s next = none := by
  cases s with
  | nil => rfl
  | cons c s =>
    simp only [Pattern.many1, Pattern.match?]
    exact if_neg (Bool.eq_false_iff.1 (h c rfl))

/-- **A value is matched where one is read**, by one of the three groups. -/
theorem match?_valuePattern (groups : Groups) (s : List Char) :
    ∃ i ∈ [2, 3, 4], valuePattern.match? groups s found =
      (valueBody? s).map fun p => ((i, p.1) :: groups, p.2) := by
  have halt : valuePattern.match? groups s found =
      ((quotedPattern 2 '"').match? groups s found <|>
        ((quotedPattern 3 '\'').match? groups s found <|>
          (Pattern.group 4 (.many1 isBareChar)).match? groups s found)) := rfl
  -- A quotation mark starts no run.
  have hmark {c : Char} {rest : List Char} (hs : s = c :: rest) (hc : isBareChar c = false) :
      (Pattern.group 4 (.many1 isBareChar)).match? groups s found = none :=
    match?_run_of_neg fun d hd => by
      cases hs ▸ hd
      exact hc
  unfold valueBody?
  split
  · rename_i rest
    refine ⟨2, by simp, ?_⟩
    rw [halt, match?_quotedPattern, match?_quotedPattern_of_ne groups (by simp),
      hmark rfl (by decide)]
    cases Text.cut? '"' rest <;> rfl
  · rename_i rest
    refine ⟨3, by simp, ?_⟩
    rw [halt, match?_quotedPattern, match?_quotedPattern_of_ne groups (by simp),
      hmark rfl (by decide)]
    cases Text.cut? '\'' rest <;> rfl
  · rename_i hdouble hsingle
    refine ⟨4, by simp, ?_⟩
    rw [halt, match?_quotedPattern_of_ne groups hdouble, match?_quotedPattern_of_ne groups hsingle]
    cases s with
    | nil => rfl
    | cons c rest =>
      cases hc : isBareChar c with
      | true =>
        rw [match?_run 4 hc rfl, List.takeWhile_cons_of_pos hc, List.dropWhile_cons_of_pos hc]
        rfl
      | false =>
        rw [hmark rfl hc, List.takeWhile_cons_of_neg (by simp [hc])]
        rfl

/-- No value starts with a blank. -/
theorem valueBody?_cons_blank {c : Char} (hc : Text.isBlank c = true) (rest : List Char) :
    valueBody? (c :: rest) = none := by
  have hslash : c ≠ '/' := by
    rintro rfl
    exact absurd hc (by decide)
  unfold valueBody?
  split
  · rename_i he
    cases he
    exact absurd hc (by decide)
  · rename_i he
    cases he
    exact absurd hc (by decide)
  · rw [List.takeWhile_cons_of_neg (by simp [isBareChar, isDelimiter, hc, hslash])]

/-- The value behind a name is matched where one is read, too. -/
theorem match?_assignmentPattern (groups : Groups) (s : List Char) :
    ∃ i ∈ [2, 3, 4], assignmentPattern.match? groups s found =
      (value? s).map fun p => ((i, p.1) :: groups, p.2) := by
  have hvalue (s : List Char) :
      Pattern.takeMany Text.isBlank (fun rest => valuePattern.match? groups rest found) s =
        valuePattern.match? groups (s.dropWhile Text.isBlank) found := by
    refine Pattern.takeMany_of_none (fun c rest hc => ?_) s
    obtain ⟨i, -, hmatch⟩ := match?_valuePattern groups (c :: rest)
    rw [hmatch, valueBody?_cons_blank hc]
    rfl
  have hequals (c : Char) (rest : List Char) (hc : Text.isBlank c = true) : ¬ c = '=' := by
    rintro rfl
    exact absurd hc (by decide)
  have hassign : assignmentPattern.match? groups s found =
      match s.dropWhile Text.isBlank with
      | '=' :: rest => valuePattern.match? groups (rest.dropWhile Text.isBlank) found
      | _ => none := by
    simp only [assignmentPattern, Pattern.match?, hvalue, decide_eq_true_eq]
    rw [Pattern.takeMany_of_none fun c rest hc => if_neg (hequals c rest hc)]
    cases s.dropWhile Text.isBlank with
    | nil => rfl
    | cons c rest =>
      by_cases hc : c = '='
      · subst hc
        rfl
      · simp only [if_neg hc]
        split
        · rename_i he
          cases he
          exact absurd rfl hc
        · rfl
  rw [hassign, value?]
  split
  · exact match?_valuePattern groups _
  · exact ⟨2, by simp, rfl⟩

section Attribute

variable {c : Char} {rest : List Char}

theorem matchStart?_eq (s : List Char) :
    attributePattern.matchStart? s =
      (Pattern.group 1 (.many1 fun c => !isDelimiter c)).match? [] s fun groups rest =>
        assignmentPattern.match? groups rest found <|> found groups rest := rfl

/-- No attribute starts with a delimiter. -/
theorem matchStart?_of_isDelimiter (hc : isDelimiter c = true) :
    attributePattern.matchStart? (c :: rest) = none := by
  rw [matchStart?_eq]
  refine match?_run_of_neg fun d hd => ?_
  cases hd
  rw [hc]
  rfl

/-- A name is matched as a whole, and with it the value behind it if there is one. -/
theorem matchStart?_of_value? (hc : isDelimiter c = false) {v after : List Char}
    (hv : value? (rest.dropWhile fun d => !isDelimiter d) = some (v, after)) :
    ∃ groups, attributePattern.matchStart? (c :: rest) = some (groups, after) ∧
      attributeOf groups = (lowered (c :: rest.takeWhile fun d => !isDelimiter d),
        String.ofList (Entity.decodeChars v)) := by
  let name := c :: rest.takeWhile fun d => !isDelimiter d
  obtain ⟨i, hi, hmatch⟩ :=
    match?_assignmentPattern [(1, name)] (rest.dropWhile fun d => !isDelimiter d)
  rw [hv, Option.map_some] at hmatch
  refine ⟨[(i, v), (1, name)], ?_, ?_⟩
  · rw [matchStart?_eq]
    refine match?_run 1 (by rw [hc]; rfl) ?_
    rw [hmatch]
    rfl
  · simp only [List.mem_cons, List.not_mem_nil, or_false] at hi
    rcases hi with rfl | rfl | rfl <;> rfl

/-- A name without a value is matched alone. -/
theorem matchStart?_of_value?_eq_none (hc : isDelimiter c = false)
    (hv : value? (rest.dropWhile fun d => !isDelimiter d) = none) :
    attributePattern.matchStart? (c :: rest) =
      some ([(1, c :: rest.takeWhile fun d => !isDelimiter d)],
        rest.dropWhile fun d => !isDelimiter d) := by
  let name := c :: rest.takeWhile fun d => !isDelimiter d
  obtain ⟨i, -, hmatch⟩ :=
    match?_assignmentPattern [(1, name)] (rest.dropWhile fun d => !isDelimiter d)
  rw [matchStart?_eq]
  refine match?_run 1 (by rw [hc]; rfl) ?_
  rw [hmatch, hv]
  rfl

end Attribute

/-- **The matches of the pattern are the attributes that are read.** -/
theorem attributeList_eq_scanned (s : List Char) : attributeList s = scanned s := by
  fun_induction scanned s with
  | case1 => rfl
  | case2 c rest hc ih =>
    rw [attributeList, Pattern.findAll_cons_of_none (matchStart?_of_isDelimiter hc)]
    exact ih
  | case3 c rest hc name _ v after hv _ ih =>
    obtain ⟨groups, hmatch, hattr⟩ := matchStart?_of_value? (Bool.eq_false_iff.2 hc) hv
    have hbehind : after <:+ rest := (suffix_value? hv).trans (List.dropWhile_suffix _)
    rw [attributeList, Pattern.findAll_cons_of_some hmatch hbehind, List.map_cons, hattr, ← ih,
      attributeList]
  | case4 c rest hc name _ hv ih =>
    have hmatch := matchStart?_of_value?_eq_none (Bool.eq_false_iff.2 hc) hv
    rw [attributeList, Pattern.findAll_cons_of_some hmatch (List.dropWhile_suffix _),
      List.map_cons, ← ih, attributeList]
    rfl

end RawHtml

end DocMarkup
