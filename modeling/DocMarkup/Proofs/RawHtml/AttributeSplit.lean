import DocMarkup.Proofs.RawHtml.AttributeScan
import DocMarkup.Proofs.RawHtml.References
import Mathlib.Data.List.Forall2

/-!
# Attribute texts as gaps and attributes

Every attribute text is gaps and attributes in turn, in one way only, and the attributes that are
read are those. A gap holds nothing but blanks and the marks that separate attributes. An attribute
is a name, which goes on as far as it can, and with it the equals sign and the value behind it if
these are complete; if they are not, the name stands alone, and what is behind it is read as if no
value had been tried.

The relations here say what an attribute is without reading it.

## Main definitions

* `RawHtml.IsGapChar`, `RawHtml.IsValueChar` : the characters of gaps, and those of bare values.
* `RawHtml.IsValueText`, `RawHtml.IsAssignment` : values, and values behind an equals sign.
* `RawHtml.AttributePiece` : a gap and the attribute after it.
* `RawHtml.AttributePiece.Gives` : the attribute that is read.
* `RawHtml.AttributePiece.Precedes` : the attributes that can stand before a text.
* `RawHtml.IsAttributeSplit` : a text cut into gaps and attributes.

## Main results

* `RawHtml.value?_eq_some_iff` : a value is read just where one stands.
* `RawHtml.IsAttributeSplit.unique` : a text can be cut in one way only.
* `RawHtml.attributes_split` : the attributes of a text are those that it is cut into.
-/

namespace DocMarkup.RawHtml

/-- Characters that stand in no name and in no bare value. -/
def Separates (c : Char) : Prop := Text.isBlank c = true ∨ c ∈ ['"', '\'', '=', '<', '>', '`']

/-- Characters that stand in no name. -/
def IsGapChar (c : Char) : Prop := Separates c ∨ c = '/'

/-- A value before the text `rest`, as it is written and without its quotation marks. -/
inductive IsValueText (rest : List Char) : List Char → List Char → Prop
  | double {v : List Char} (hv : '"' ∉ v) : IsValueText rest ('"' :: (v ++ ['"'])) v
  | single {v : List Char} (hv : '\'' ∉ v) : IsValueText rest ('\'' :: (v ++ ['\''])) v
  /-- Without quotation marks a value goes on as far as it can. -/
  | bare {v : List Char} (hne : v ≠ []) (hv : ∀ c ∈ v, ¬ Separates c)
      (hrest : ∀ c ∈ rest.head?, Separates c) : IsValueText rest v v

/-- An equals sign between blanks and a value before the text `rest`, with the value. -/
inductive IsAssignment (rest : List Char) : List Char → List Char → Prop
  | mk {before after text v : List Char} (hbefore : ∀ c ∈ before, Text.isBlank c = true)
      (hafter : ∀ c ∈ after, Text.isBlank c = true) (h : IsValueText rest text v) :
      IsAssignment rest (before ++ '=' :: (after ++ text)) v

/-- What belongs to an attribute behind its name, with its value: an assignment if one stands
there, and else nothing. -/
inductive IsTail (rest : List Char) : List Char → Option (List Char) → Prop
  | assignment {tail v : List Char} (h : IsAssignment rest tail v) : IsTail rest tail (some v)
  | none (h : ∀ tail v after, rest = tail ++ after → ¬ IsAssignment after tail v) :
      IsTail rest [] none

/-- A gap and the attribute after it: its name, what belongs to it behind the name, and its
value. -/
structure AttributePiece where
  gap : List Char
  name : List Char
  tail : List Char
  value : Option (List Char)

namespace AttributePiece

/-- The text of a gap and an attribute. -/
def text (p : AttributePiece) : List Char := p.gap ++ (p.name ++ p.tail)

/-- The attribute that is read: the name in small letters, and the value with references replaced,
which is empty if there is none. -/
structure Gives (p : AttributePiece) (a : String × String) : Prop where
  name : a.1 = String.ofList (p.name.map Char.toLower)
  value : Entity.Decodes (p.value.getD []) a.2.toList

/-- A gap and an attribute can stand before a text. -/
structure Precedes (rest : List Char) (p : AttributePiece) : Prop where
  gap : ∀ c ∈ p.gap, IsGapChar c
  ne_nil : p.name ≠ []
  name : ∀ c ∈ p.name, ¬ IsGapChar c
  /-- The name goes on as far as it can. -/
  maximal : ∀ c ∈ (p.tail ++ rest).head?, IsGapChar c
  tail : IsTail rest p.tail p.value

end AttributePiece

/-- A text that is cut into gaps and attributes, with the gap at its end. -/
inductive IsAttributeSplit : List Char → List AttributePiece → List Char → Prop
  | last {gap : List Char} (h : ∀ c ∈ gap, IsGapChar c) : IsAttributeSplit gap [] gap
  | cons {p : AttributePiece} {rest gap : List Char} {ps : List AttributePiece}
      (h : p.Precedes rest) (hrest : IsAttributeSplit rest ps gap) :
      IsAttributeSplit (p.text ++ rest) (p :: ps) gap

/-! ### Characters -/

theorem isDelimiter_iff {c : Char} : isDelimiter c = true ↔ IsGapChar c := by
  simp only [isDelimiter, IsGapChar, Separates, Bool.or_eq_true, decide_eq_true_eq, List.mem_cons,
    List.not_mem_nil, or_false, or_assoc]

theorem isDelimiter_eq_false_iff {c : Char} : isDelimiter c = false ↔ ¬ IsGapChar c := by
  rw [← isDelimiter_iff, Bool.not_eq_true]

theorem not_separates_slash : ¬ Separates '/' := by
  rw [Separates]
  decide

theorem isBareChar_iff {c : Char} : isBareChar c = true ↔ ¬ Separates c := by
  rw [isBareChar, Bool.or_eq_true, Bool.not_eq_true', isDelimiter_eq_false_iff, decide_eq_true_eq,
    IsGapChar, not_or]
  constructor
  · rintro (h | rfl)
    · exact h.1
    · exact not_separates_slash
  · intro h
    by_cases hc : c = '/'
    · exact Or.inr hc
    · exact Or.inl ⟨h, hc⟩

theorem isBareChar_eq_false_iff {c : Char} : isBareChar c = false ↔ Separates c := by
  rw [← Bool.not_eq_true, isBareChar_iff, not_not]

/-! ### Values -/

/-- A value is read at the start of a text just where one stands. -/
theorem valueBody?_eq_some_iff {s v rest : List Char} :
    valueBody? s = some (v, rest) ↔ ∃ text, s = text ++ rest ∧ IsValueText rest text v := by
  have hquote (q : Char) {a b : List Char} : q :: (a ++ q :: b) = q :: (a ++ [q]) ++ b := by simp
  constructor
  · intro h
    unfold valueBody? at h
    split at h
    · obtain ⟨rfl, hv⟩ := Text.cut?_eq_some_iff.1 h
      exact ⟨_, hquote '"', .double hv⟩
    · obtain ⟨rfl, hv⟩ := Text.cut?_eq_some_iff.1 h
      exact ⟨_, hquote '\'', .single hv⟩
    · split at h
      · cases h
      · rename_i hne
        cases h
        refine ⟨_, List.takeWhile_append_dropWhile.symm, .bare hne (fun c hc => ?_) fun c hc => ?_⟩
        · exact isBareChar_iff.1 (List.mem_takeWhile_imp hc)
        · exact isBareChar_eq_false_iff.1 (Text.head?_dropWhile isBareChar s c hc)
  · rintro ⟨text, rfl, h⟩
    cases h with
    | double hv =>
      rw [← hquote '"', valueBody?]
      exact Text.cut?_eq_some_iff.2 ⟨rfl, hv⟩
    | single hv =>
      rw [← hquote '\'', valueBody?]
      exact Text.cut?_eq_some_iff.2 ⟨rfl, hv⟩
    | bare hne hv hrest =>
      have hrun : ∀ c ∈ v, isBareChar c = true := fun c hc => isBareChar_iff.2 (hv c hc)
      have hend : ∀ c ∈ rest.head?, isBareChar c = false := fun c hc =>
        isBareChar_eq_false_iff.2 (hrest c hc)
      obtain ⟨c, v, rfl⟩ := List.exists_cons_of_ne_nil hne
      have hc : c ≠ '"' ∧ c ≠ '\'' := by
        have hmark : c ∉ ['"', '\'', '=', '<', '>', '`'] := fun hm =>
          hv c List.mem_cons_self (.inr hm)
        simp only [List.mem_cons, not_or] at hmark
        exact ⟨hmark.1, hmark.2.1⟩
      rw [List.cons_append, valueBody?, ← List.cons_append, Text.takeWhile_run hrun hend,
        Text.dropWhile_run hrun hend]
      · rintro _ ⟨⟩
        exact hc.1 rfl
      · rintro _ ⟨⟩
        exact hc.2 rfl

/-- A value starts with no blank. -/
theorem IsValueText.not_isBlank {rest text v : List Char} (h : IsValueText rest text v) :
    ∃ c s, text = c :: s ∧ Text.isBlank c = false := by
  cases h with
  | double => exact ⟨_, _, rfl, by decide⟩
  | single => exact ⟨_, _, rfl, by decide⟩
  | bare hne hv =>
    obtain ⟨c, s, rfl⟩ := List.exists_cons_of_ne_nil hne
    exact ⟨c, s, rfl, Bool.eq_false_iff.2 fun hblank => hv c List.mem_cons_self (.inl hblank)⟩

/-- A value is read behind a name just where an equals sign and a value stand. -/
theorem value?_eq_some_iff {s v rest : List Char} :
    value? s = some (v, rest) ↔ ∃ tail, s = tail ++ rest ∧ IsAssignment rest tail v := by
  obtain ⟨before, s, rfl, hbefore, hs⟩ := Text.exists_run Text.isBlank s
  rw [value?, Text.dropWhile_run hbefore hs]
  constructor
  · intro h
    split at h
    · rename_i r
      obtain ⟨after, r, rfl, hafter, hr⟩ := Text.exists_run Text.isBlank r
      rw [Text.dropWhile_run hafter hr] at h
      obtain ⟨text, rfl, hvalue⟩ := valueBody?_eq_some_iff.1 h
      exact ⟨_, by simp, .mk hbefore hafter hvalue⟩
    · cases h
  · rintro ⟨tail, he, h⟩
    cases h with
    | @mk before' after text _ hbefore' hafter hvalue =>
      -- both equals signs stand behind the same blanks
      have heq : ∀ c ∈ ('=' :: (after ++ text) ++ rest).head?, Text.isBlank c = false := by
        rintro c ⟨⟩
        decide
      rw [List.append_assoc] at he
      have hdrop := congrArg (List.dropWhile Text.isBlank) he
      rw [Text.dropWhile_run hbefore hs, Text.dropWhile_run hbefore' heq] at hdrop
      obtain ⟨c, text, rfl, hc⟩ := hvalue.not_isBlank
      have hvalueEnd : ∀ d ∈ (c :: text ++ rest).head?, Text.isBlank d = false := by
        rintro d ⟨⟩
        exact hc
      rw [hdrop, List.cons_append, List.append_assoc]
      change valueBody? ((after ++ (c :: text ++ rest)).dropWhile Text.isBlank) = _
      rw [Text.dropWhile_run hafter hvalueEnd]
      exact valueBody?_eq_some_iff.2 ⟨c :: text, rfl, hvalue⟩

theorem value?_eq_none_iff {s : List Char} :
    value? s = none ↔ ∀ tail v rest, s = tail ++ rest → ¬ IsAssignment rest tail v := by
  rw [Option.eq_none_iff_forall_ne_some]
  refine ⟨fun h tail v rest hs ha => h (v, rest) (value?_eq_some_iff.2 ⟨tail, hs, ha⟩), ?_⟩
  rintro h ⟨v, rest⟩ hv
  obtain ⟨tail, hs, ha⟩ := value?_eq_some_iff.1 hv
  exact h tail v rest hs ha

/-- What belongs to an attribute behind its name is the same wherever the same text stands. -/
theorem IsTail.unique {tail tail' rest rest' : List Char} {value value' : Option (List Char)}
    (h : IsTail rest tail value) (h' : IsTail rest' tail' value')
    (hs : tail ++ rest = tail' ++ rest') : tail = tail' ∧ value = value' ∧ rest = rest' := by
  have hread {tail rest : List Char} {value : Option (List Char)} (h : IsTail rest tail value) :
      value? (tail ++ rest) = value.map (·, rest) := by
    cases h with
    | assignment h => exact value?_eq_some_iff.2 ⟨_, rfl, h⟩
    | none h => exact value?_eq_none_iff.2 h
  have hsame : value.map (·, rest) = value'.map (·, rest') := by
    rw [← hread h, ← hread h', hs]
  cases h with
  | assignment h =>
    cases h' with
    | assignment h' =>
      cases hsame
      exact ⟨List.append_cancel_right hs, rfl, rfl⟩
    | none => cases hsame
  | none h =>
    cases h' with
    | assignment h' => cases hsame
    | none => exact ⟨rfl, rfl, hs⟩

/-! ### Cutting a text -/

namespace AttributePiece.Precedes

variable {p p' : AttributePiece} {rest rest' : List Char}

/-- No gap holds an attribute. -/
theorem exists_not_isGapChar (h : p.Precedes rest) : ∃ c ∈ p.text ++ rest, ¬ IsGapChar c := by
  obtain ⟨c, name, hname⟩ := List.exists_cons_of_ne_nil h.ne_nil
  exact ⟨c, by simp [AttributePiece.text, hname], h.name c (hname ▸ List.mem_cons_self)⟩

/-- The gap ends where the name starts. -/
theorem takeWhile_gap (h : p.Precedes rest) :
    (p.gap ++ (p.name ++ (p.tail ++ rest))).takeWhile isDelimiter = p.gap := by
  refine Text.takeWhile_run (fun c hc => isDelimiter_iff.2 (h.gap c hc)) ?_
  obtain ⟨c, name, hname⟩ := List.exists_cons_of_ne_nil h.ne_nil
  rw [hname]
  rintro d ⟨⟩
  exact isDelimiter_eq_false_iff.2 (h.name c (hname ▸ List.mem_cons_self))

/-- The name ends where what belongs to it or the rest of the text starts. -/
theorem takeWhile_name (h : p.Precedes rest) :
    (p.name ++ (p.tail ++ rest)).takeWhile (fun c => !isDelimiter c) = p.name :=
  Text.takeWhile_run (fun c hc => by rw [isDelimiter_eq_false_iff.2 (h.name c hc)]; rfl)
    fun c hc => by rw [isDelimiter_iff.2 (h.maximal c hc)]; rfl

/-- A text starts with one gap and attribute only. -/
theorem unique (h : p.Precedes rest) (h' : p'.Precedes rest')
    (hs : p.text ++ rest = p'.text ++ rest') : p' = p ∧ rest' = rest := by
  simp only [AttributePiece.text, List.append_assoc] at hs
  have hgap : p.gap = p'.gap := by rw [← h.takeWhile_gap, hs, h'.takeWhile_gap]
  rw [hgap, List.append_cancel_left_eq] at hs
  have hname : p.name = p'.name := by rw [← h.takeWhile_name, hs, h'.takeWhile_name]
  rw [hname, List.append_cancel_left_eq] at hs
  obtain ⟨htail, hvalue, hrest⟩ := h.tail.unique h'.tail hs
  cases p
  cases p'
  cases hgap
  cases hname
  cases htail
  cases hvalue
  exact ⟨rfl, hrest.symm⟩

end AttributePiece.Precedes

namespace IsAttributeSplit

variable {s gap : List Char} {ps : List AttributePiece}

/-- The text is its gaps and attributes one after the other. -/
theorem eq_append (h : IsAttributeSplit s ps gap) : s = ps.flatMap AttributePiece.text ++ gap := by
  induction h with
  | last => rfl
  | cons _ _ ih => rw [List.flatMap_cons, List.append_assoc, ← ih]

/-- One more character in front of the first gap. -/
theorem exists_cons (h : IsAttributeSplit s ps gap) {c : Char} (hc : IsGapChar c) :
    ∃ ps' gap', IsAttributeSplit (c :: s) ps' gap' ∧
      ∀ attrs, List.Forall₂ AttributePiece.Gives ps attrs →
        List.Forall₂ AttributePiece.Gives ps' attrs := by
  cases h with
  | last hgap => exact ⟨[], _, .last (List.forall_mem_cons.2 ⟨hc, hgap⟩), fun _ h => h⟩
  | @cons p rest _ ps hp hrest =>
    have hp' : AttributePiece.Precedes rest { p with gap := c :: p.gap } :=
      { hp with gap := List.forall_mem_cons.2 ⟨hc, hp.gap⟩ }
    refine ⟨_, gap, .cons hp' hrest, fun attrs h => ?_⟩
    cases h with
    | cons hgives hgivesAll => exact .cons ⟨hgives.name, hgives.value⟩ hgivesAll

/-- A text can be cut in one way only. -/
theorem unique {others : List AttributePiece} {gap' : List Char} (h : IsAttributeSplit s ps gap)
    (h' : IsAttributeSplit s others gap') : others = ps ∧ gap' = gap := by
  have hnone {gap : List Char} (hgap : ∀ c ∈ gap, IsGapChar c) {p : AttributePiece}
      {rest : List Char} (hp : p.Precedes rest) : gap ≠ p.text ++ rest := fun he => by
    obtain ⟨c, hc, hname⟩ := hp.exists_not_isGapChar
    exact hname (hgap c (he ▸ hc))
  induction h generalizing others gap' with
  | @last gap hgap =>
    generalize hs : gap = s at h'
    cases h' with
    | last => exact ⟨rfl, rfl⟩
    | cons hp _ => exact absurd hs (hnone hgap hp)
  | @cons p rest gap ps hp hrest ih =>
    generalize hs : p.text ++ rest = s at h'
    cases h' with
    | last hgap => exact absurd hs.symm (hnone hgap hp)
    | cons hp' hrest' =>
      obtain ⟨rfl, rfl⟩ := hp.unique hp' hs
      obtain ⟨rfl, rfl⟩ := ih hrest'
      exact ⟨rfl, rfl⟩

end IsAttributeSplit

/-- The attributes of a text are those that it is cut into. -/
theorem exists_isAttributeSplit (s : List Char) :
    ∃ ps gap, IsAttributeSplit s ps gap ∧
      List.Forall₂ AttributePiece.Gives ps (attributeList s) := by
  -- a name is followed by the end of the text or by a character of gaps
  have hmaximal (rest : List Char) :
      ∀ c ∈ (rest.dropWhile fun d => !isDelimiter d).head?, IsGapChar c := fun c hc => by
    simpa [isDelimiter_iff] using Text.head?_dropWhile _ rest c hc
  have hname {c : Char} (hc : ¬ isDelimiter c = true) (rest : List Char) :
      ∀ d ∈ c :: rest.takeWhile fun d => !isDelimiter d, ¬ IsGapChar d := by
    refine List.forall_mem_cons.2 ⟨fun h => hc (isDelimiter_iff.2 h), fun d hd => ?_⟩
    exact isDelimiter_eq_false_iff.1 (by simpa using List.mem_takeWhile_imp hd)
  rw [attributeList_eq_scanned]
  fun_induction scanned s with
  | case1 => exact ⟨[], [], .last fun _ hc => absurd hc List.not_mem_nil, .nil⟩
  | case2 c rest hc ih =>
    obtain ⟨ps, gap, hsplit, hattrs⟩ := ih
    obtain ⟨ps', gap', hsplit', hsame⟩ := hsplit.exists_cons (isDelimiter_iff.1 hc)
    exact ⟨ps', gap', hsplit', hsame _ hattrs⟩
  | case3 c rest hc name _ v after hvalue _ ih =>
    obtain ⟨ps, gap, hsplit, hattrs⟩ := ih
    obtain ⟨tail, hrest, hassign⟩ := value?_eq_some_iff.1 hvalue
    let p : AttributePiece := ⟨[], c :: rest.takeWhile fun d => !isDelimiter d, tail, some v⟩
    have hp : p.Precedes after :=
      { gap := fun _ hd => absurd hd List.not_mem_nil
        ne_nil := List.cons_ne_nil _ _
        name := hname hc rest
        maximal := hrest ▸ hmaximal rest
        tail := .assignment hassign }
    have htext : p.text ++ after = c :: rest := by
      rw [AttributePiece.text, List.nil_append, List.append_assoc, ← hrest, List.cons_append,
        List.takeWhile_append_dropWhile]
    have hdecodes : Entity.Decodes v (String.ofList (Entity.decodeChars v)).toList := by
      rw [String.toList_ofList, Entity.decodeChars_eq_replace]
      exact Entity.decodes_replace v
    exact ⟨p :: ps, gap, htext ▸ .cons hp hsplit, .cons ⟨rfl, hdecodes⟩ hattrs⟩
  | case4 c rest hc name _ hvalue ih =>
    obtain ⟨ps, gap, hsplit, hattrs⟩ := ih
    let p : AttributePiece := ⟨[], c :: rest.takeWhile fun d => !isDelimiter d, [], none⟩
    have hp : p.Precedes (rest.dropWhile fun d => !isDelimiter d) :=
      { gap := fun _ hd => absurd hd List.not_mem_nil
        ne_nil := List.cons_ne_nil _ _
        name := hname hc rest
        maximal := hmaximal rest
        tail := .none (value?_eq_none_iff.1 hvalue) }
    have htext : p.text ++ (rest.dropWhile fun d => !isDelimiter d) = c :: rest := by
      rw [AttributePiece.text, List.nil_append, List.append_nil, List.cons_append,
        List.takeWhile_append_dropWhile]
    exact ⟨p :: ps, gap, htext ▸ .cons hp hsplit, .cons ⟨rfl, .nil⟩ hattrs⟩

/-- **The attributes of a text are those that it is cut into.** Every attribute text can be cut
into gaps and attributes, in one way only, and together they are the text. -/
theorem attributes_split (s : String) :
    ∃ ps gap, IsAttributeSplit s.toList ps gap ∧
      s.toList = ps.flatMap AttributePiece.text ++ gap ∧
      List.Forall₂ AttributePiece.Gives ps (attributes s) ∧
      ∀ others gap', IsAttributeSplit s.toList others gap' → others = ps ∧ gap' = gap := by
  obtain ⟨ps, gap, hsplit, hattrs⟩ := exists_isAttributeSplit s.toList
  exact ⟨ps, gap, hsplit, hsplit.eq_append, hattrs, fun _ _ h => hsplit.unique h⟩

/-- A name with capitals and a value with a reference, an equals sign without a name in front of it,
and a quotation mark without another one behind it. -/
def ragged : String := "Href = 'a &amp; b' =x\u3000Title=\"1 < 2/"

theorem attributes_split_ragged :
    ∃ ps gap, IsAttributeSplit ragged.toList ps gap ∧
      ragged.toList = ps.flatMap AttributePiece.text ++ gap ∧
      List.Forall₂ AttributePiece.Gives ps
        [("href", "a & b"), ("x", ""), ("title", ""), ("1", ""), ("2", "")] := by
  have hread : attributes ragged =
      [("href", "a & b"), ("x", ""), ("title", ""), ("1", ""), ("2", "")] := by decide +kernel
  obtain ⟨ps, gap, hsplit, htext, hgives, -⟩ := attributes_split ragged
  exact ⟨ps, gap, hsplit, htext, hread ▸ hgives⟩

end DocMarkup.RawHtml
