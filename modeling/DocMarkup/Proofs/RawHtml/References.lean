import DocMarkup.Proofs.Text.Pieces
import DocMarkup.RawHtml.Entity

/-!
# What decoding does to references

The decoder looks for what has the form of a reference, reads its number with 32 bits, and goes on
behind it even if it stands for nothing. A reference, told without the decoder, is an ampersand, a
body and a semicolon, where the body is one of six names or a number sign with digits whose number,
taken as it is, is that of a character. Decoding is the one pass from the left that replaces the
references of a text and keeps every other character: no number that overflows is the number of a
character, and inside what has the form of a reference no other one can start.

## Main definitions

* `Entity.StandsFor` : what the body of a reference stands for.
* `Entity.IsBody` : what has the form of a reference.
* `Entity.Decodes` : a text and what a pass over its references makes of it.

## Main results

* `Text.numeral32?_eq` : numbers with 32 bits.
* `Entity.numbered?_eq_some_iff` : numbered references, whatever their number of digits.
* `Entity.replace_reference`, `Entity.replace_verbatim` : one step of the pass.
* `Entity.decode_unbounded` : decoding is the pass over the references.
-/

namespace DocMarkup

namespace Text

variable {base : Nat}

/-! ### Numbers with 32 bits -/

/-- The number that digits write behind a number. -/
def extend (base n : Nat) (digits : List Char) : Nat :=
  digits.foldl (fun n c => n * base + (digitValue? c).getD 0) n

/-- More digits make no number smaller. -/
theorem le_extend (hbase : 0 < base) (n : Nat) (digits : List Char) : n ≤ extend base n digits := by
  induction digits generalizing n with
  | nil => exact Nat.le_refl n
  | cons c digits ih =>
    calc n ≤ n * base := Nat.le_mul_of_pos_right n hbase
      _ ≤ n * base + (digitValue? c).getD 0 := Nat.le_add_right _ _
      _ ≤ extend base n (c :: digits) := ih _

/-- Digits behind a number of 32 bits are read as long as the number fits. One that does not fit
never fits again. -/
theorem foldlM_pushDigit? (hbase : 0 < base) {digits : List Char}
    (hdigits : ∀ c ∈ digits, (digitValue? c).isSome = true) (n : UInt32) :
    digits.foldlM (pushDigit? base) n =
      if extend base n.toNat digits < UInt32.size then
        some (UInt32.ofNat (extend base n.toNat digits))
      else none := by
  induction digits generalizing n with
  | nil =>
    have hn : extend base n.toNat [] = n.toNat := rfl
    rw [hn, if_pos n.toNat_lt_size, UInt32.ofNat_toNat]
    rfl
  | cons c digits ih =>
    obtain ⟨hc, hrest⟩ := List.forall_mem_cons.1 hdigits
    obtain ⟨d, hd⟩ := Option.isSome_iff_exists.1 hc
    have hextend : extend base n.toNat (c :: digits) = extend base (n.toNat * base + d) digits := by
      rw [extend, List.foldl_cons, hd, Option.getD_some, extend]
    rw [hextend, List.foldlM_cons, pushDigit?, hd, Option.bind_some]
    by_cases hfits : n.toNat * base + d < UInt32.size
    · rw [if_pos hfits]
      refine (ih hrest _).trans ?_
      rw [UInt32.toNat_ofNat_of_lt' hfits]
    · have hlarge := le_extend hbase (n.toNat * base + d) digits
      rw [if_neg hfits, if_neg (by omega)]
      rfl

/-- **A number is read with 32 bits exactly if it fits.** -/
theorem numeral32?_eq (hbase : 0 < base) {digits : List Char}
    (hdigits : ∀ c ∈ digits, (digitValue? c).isSome = true) :
    numeral32? base digits =
      if numeral base digits < UInt32.size then some (UInt32.ofNat (numeral base digits))
      else none :=
  foldlM_pushDigit? hbase hdigits 0

/-- The character of a number is the one that has the number. -/
theorem scalar?_eq_some_iff {n : Nat} {c : Char} : scalar? n = some c ↔ c.toNat = n := by
  rw [scalar?]
  constructor
  · intro h
    split at h
    · rename_i hn
      obtain rfl := Option.some.inj h
      rw [Char.ofNat, dif_pos hn]
      rfl
    · cases h
  · rintro rfl
    exact (if_pos c.valid).trans (congrArg some (Char.ofNat_toNat c))

end Text

namespace Entity

/-! ### References -/

/-- The names of references. -/
def names : List (String × Char) :=
  [("amp", '&'), ("apos", '\''), ("gt", '>'), ("lt", '<'), ("nbsp", '\u00a0'), ("quot", '"')]

/-- The body of a reference and the character that it stands for: one of the names, or a number
sign with digits of any number whose value is the number of the character. -/
inductive StandsFor : List Char → Char → Prop
  | name {name : String} {c : Char} (h : (name, c) ∈ names) : StandsFor name.toList c
  | decimal {digits : List Char} {c : Char} (hne : digits ≠ [])
      (hdigits : ∀ d ∈ digits, d.isDigit = true) (hc : c.toNat = Text.numeral 10 digits) :
      StandsFor ('#' :: digits) c
  | hexadecimal {x : Char} {digits : List Char} {c : Char} (hx : x = 'x' ∨ x = 'X')
      (hne : digits ≠ []) (hdigits : ∀ d ∈ digits, Text.isDigitTo 16 d = true)
      (hc : c.toNat = Text.numeral 16 digits) : StandsFor ('#' :: x :: digits) c

/-- A text and what one pass from the left makes of it: where a reference stands, its character,
going on behind the reference; anywhere else, the character that stands there. -/
inductive Decodes : List Char → List Char → Prop
  | nil : Decodes [] []
  | reference {body rest out : List Char} {c : Char} (h : StandsFor body c)
      (hrest : Decodes rest out) : Decodes ('&' :: (body ++ ';' :: rest)) (c :: out)
  | verbatim {c : Char} {rest out : List Char}
      (h : ∀ body d after, StandsFor body d → c :: rest ≠ '&' :: (body ++ ';' :: after))
      (hrest : Decodes rest out) : Decodes (c :: rest) (c :: out)

/-- What has the form of a reference, whether it stands for a character or not. -/
inductive IsBody : List Char → Prop
  | name {name : List Char} (hne : name ≠ []) (h : ∀ c ∈ name, c.isAlpha = true) : IsBody name
  | decimal {digits : List Char} (hne : digits ≠ []) (h : ∀ d ∈ digits, d.isDigit = true) :
      IsBody ('#' :: digits)
  | hexadecimal {x : Char} {digits : List Char} (hx : x = 'x' ∨ x = 'X') (hne : digits ≠ [])
      (h : ∀ d ∈ digits, Text.isDigitTo 16 d = true) : IsBody ('#' :: x :: digits)

/-! ### The form of references -/

theorem run?_eq_some_iff {p : Char → Bool} (hp : p ';' = false) {s run rest : List Char} :
    run? p s = some (run, rest) ↔
      s = run ++ ';' :: rest ∧ run ≠ [] ∧ ∀ c ∈ run, p c = true := by
  constructor
  · intro h
    rw [run?] at h
    split at h
    · rename_i c cs after htake hdrop
      obtain ⟨rfl, rfl⟩ := Prod.mk.inj (Option.some.inj h)
      refine ⟨?_, List.cons_ne_nil c cs, fun d hd => ?_⟩
      · rw [← htake, ← hdrop, List.takeWhile_append_dropWhile]
      · rw [← htake] at hd
        exact List.mem_takeWhile_imp hd
    · cases h
  · rintro ⟨rfl, hne, hrun⟩
    have hrest : ∀ c ∈ (';' :: rest).head?, p c = false := fun c hc => by
      obtain rfl := Option.some.inj hc
      exact hp
    obtain ⟨c, cs, rfl⟩ := List.exists_cons_of_ne_nil hne
    rw [run?, Text.takeWhile_run hrun hrest, Text.dropWhile_run hrun hrest]
    rfl

theorem marked_eq_some_iff {mark body rest : List Char} {r : Option (List Char × List Char)} :
    marked mark r = some (body, rest) ↔ ∃ digits, r = some (digits, rest) ∧
      body = mark ++ digits := by
  rw [marked, Option.map_eq_some_iff]
  constructor
  · rintro ⟨⟨digits, after⟩, hr, he⟩
    obtain ⟨rfl, rfl⟩ := Prod.mk.inj he
    exact ⟨digits, hr, rfl⟩
  · rintro ⟨digits, hr, rfl⟩
    exact ⟨(digits, rest), hr, rfl⟩

theorem body?_of_ne {c : Char} (hc : c ≠ '#') (s : List Char) :
    body? (c :: s) = run? Char.isAlpha (c :: s) := by
  unfold body?
  split <;> simp_all

theorem body?_of_isDigit {c : Char} (hc : c.isDigit = true) (s : List Char) :
    body? ('#' :: c :: s) = marked ['#'] (run? Char.isDigit (c :: s)) := by
  have hx : c ≠ 'x' ∧ c ≠ 'X' := by
    constructor <;> rintro rfl <;> exact absurd hc (by decide)
  unfold body?
  split <;> simp_all

theorem body?_of_mark {x : Char} (hx : x = 'x' ∨ x = 'X') (s : List Char) :
    body? ('#' :: x :: s) = marked ['#', x] (run? (Text.isDigitTo 16) s) := by
  rcases hx with rfl | rfl <;> rfl

/-- What the decoder finds after an ampersand is what has the form of a reference, up to its
semicolon. -/
theorem body?_eq_some_iff {s body rest : List Char} :
    body? s = some (body, rest) ↔ s = body ++ ';' :: rest ∧ IsBody body := by
  constructor
  · intro h
    unfold body? at h
    split at h
    · obtain ⟨digits, hr, rfl⟩ := marked_eq_some_iff.1 h
      obtain ⟨rfl, hne, hdigits⟩ := (run?_eq_some_iff (by decide)).1 hr
      exact ⟨rfl, .hexadecimal (Or.inl rfl) hne hdigits⟩
    · obtain ⟨digits, hr, rfl⟩ := marked_eq_some_iff.1 h
      obtain ⟨rfl, hne, hdigits⟩ := (run?_eq_some_iff (by decide)).1 hr
      exact ⟨rfl, .hexadecimal (Or.inr rfl) hne hdigits⟩
    · obtain ⟨digits, hr, rfl⟩ := marked_eq_some_iff.1 h
      obtain ⟨rfl, hne, hdigits⟩ := (run?_eq_some_iff (by decide)).1 hr
      exact ⟨rfl, .decimal hne hdigits⟩
    · obtain ⟨rfl, hne, hname⟩ := (run?_eq_some_iff (by decide)).1 h
      exact ⟨rfl, .name hne hname⟩
  · rintro ⟨rfl, hbody⟩
    cases hbody with
    | name hne h =>
      obtain ⟨c, cs, rfl⟩ := List.exists_cons_of_ne_nil hne
      have hc : c ≠ '#' := by
        rintro rfl
        exact absurd (h '#' List.mem_cons_self) (by decide)
      rw [List.cons_append, body?_of_ne hc]
      exact (run?_eq_some_iff (by decide)).2 ⟨rfl, hne, h⟩
    | @decimal digits hne h =>
      obtain ⟨d, ds, rfl⟩ := List.exists_cons_of_ne_nil hne
      rw [List.cons_append, List.cons_append, body?_of_isDigit (h d List.mem_cons_self)]
      exact marked_eq_some_iff.2 ⟨d :: ds, (run?_eq_some_iff (by decide)).2 ⟨rfl, hne, h⟩, rfl⟩
    | @hexadecimal x digits hx hne h =>
      rw [List.cons_append, List.cons_append, body?_of_mark hx]
      exact marked_eq_some_iff.2 ⟨digits, (run?_eq_some_iff (by decide)).2 ⟨rfl, hne, h⟩, rfl⟩

/-- No ampersand stands in what has the form of a reference. -/
theorem IsBody.notMem {body : List Char} (h : IsBody body) : '&' ∉ body := by
  intro hm
  cases h with
  | name _ h => exact absurd (h _ hm) (by decide)
  | decimal _ h =>
    rcases List.mem_cons.1 hm with hm | hm
    · cases hm
    · exact absurd (h _ hm) (by decide)
  | hexadecimal hx _ h =>
    rcases List.mem_cons.1 hm with hm | hm
    · cases hm
    · rcases List.mem_cons.1 hm with rfl | hm
      · exact absurd hx (by decide)
      · exact absurd (h _ hm) (by decide)

/-! ### What references stand for -/

/-- Digits to a base have values. -/
theorem isSome_digitValue? {base : Nat} {c : Char} (h : Text.isDigitTo base c = true) :
    (Text.digitValue? c).isSome = true := by
  rw [Text.isDigitTo] at h
  cases hv : Text.digitValue? c with
  | none =>
    rw [hv] at h
    cases h
  | some v => rfl

theorem isDigitTo_of_isDigit {c : Char} (h : c.isDigit = true) : Text.isDigitTo 10 c = true := by
  have hc : 48 ≤ c.toNat ∧ c.toNat ≤ 57 := Char.isDigit_iff_toNat.1 h
  rw [Text.isDigitTo, Text.digitValue?, if_pos h]
  exact decide_eq_true (by omega)

/-- **A numbered reference stands for the character with its number**, whatever the number of its
digits: a number that does not fit into 32 bits is that of no character. -/
theorem numbered?_eq_some_iff {base : Nat} (hbase : 0 < base) {digits : List Char}
    (hdigits : ∀ d ∈ digits, Text.isDigitTo base d = true) {c : Char} :
    numbered? base digits = some c ↔ c.toNat = Text.numeral base digits := by
  rw [numbered?, Text.numeral32?_eq hbase fun d hd => isSome_digitValue? (hdigits d hd)]
  split
  · rename_i hfits
    rw [Option.bind_some, Text.scalar?_eq_some_iff, UInt32.toNat_ofNat_of_lt' hfits]
  · rename_i hlarge
    have hc : c.toNat < UInt32.size := c.val.toNat_lt_size
    refine ⟨fun h => (by cases h), fun h => ?_⟩
    omega

theorem named?_eq_some_iff {name : List Char} {c : Char} :
    named? name = some c ↔ (String.ofList name, c) ∈ names := by
  rw [named?]
  generalize String.ofList name = word
  split <;> simp_all [names, eq_comm]

theorem resolve?_of_ne {c : Char} (hc : c ≠ '#') (s : List Char) :
    resolve? (c :: s) = named? (c :: s) := by
  unfold resolve?
  split <;> simp_all

theorem resolve?_of_isDigit {c : Char} (hc : c.isDigit = true) (s : List Char) :
    resolve? ('#' :: c :: s) = numbered? 10 (c :: s) := by
  have hx : c ≠ 'x' ∧ c ≠ 'X' := by
    constructor <;> rintro rfl <;> exact absurd hc (by decide)
  unfold resolve?
  split <;> simp_all

theorem resolve?_of_mark {x : Char} (hx : x = 'x' ∨ x = 'X') (s : List Char) :
    resolve? ('#' :: x :: s) = numbered? 16 s := by
  rcases hx with rfl | rfl <;> rfl

theorem StandsFor.isBody {body : List Char} {c : Char} (h : StandsFor body c) : IsBody body := by
  cases h with
  | @name name _ h =>
    have hnames : ∀ e ∈ names, e.1.toList ≠ [] ∧ e.1.toList.all Char.isAlpha = true := by decide
    obtain ⟨hne, hletters⟩ := hnames _ h
    exact .name hne (List.all_eq_true.1 hletters)
  | decimal hne hdigits => exact .decimal hne hdigits
  | hexadecimal hx hne hdigits => exact .hexadecimal hx hne hdigits

/-- The decoder gives what has the form of a reference the character that it stands for. -/
theorem resolve?_eq_some_iff {body : List Char} (h : IsBody body) {c : Char} :
    resolve? body = some c ↔ StandsFor body c := by
  constructor
  · intro hr
    cases h with
    | name hne hletters =>
      obtain ⟨d, ds, rfl⟩ := List.exists_cons_of_ne_nil hne
      have hd : d ≠ '#' := by
        rintro rfl
        exact absurd (hletters '#' List.mem_cons_self) (by decide)
      rw [resolve?_of_ne hd, named?_eq_some_iff] at hr
      have hname := StandsFor.name hr
      rwa [String.toList_ofList] at hname
    | @decimal digits hne hdigits =>
      obtain ⟨d, ds, rfl⟩ := List.exists_cons_of_ne_nil hne
      rw [resolve?_of_isDigit (hdigits d List.mem_cons_self), numbered?_eq_some_iff (by decide)
        fun d hd => isDigitTo_of_isDigit (hdigits d hd)] at hr
      exact .decimal hne hdigits hr
    | hexadecimal hx hne hdigits =>
      rw [resolve?_of_mark hx, numbered?_eq_some_iff (by decide) hdigits] at hr
      exact .hexadecimal hx hne hdigits hr
  · intro hc
    cases hc with
    | @name name _ hname =>
      have hnames : ∀ e ∈ names, resolve? e.1.toList = some e.2 := by decide
      exact hnames _ hname
    | @decimal digits _ hne hdigits hc =>
      obtain ⟨d, ds, rfl⟩ := List.exists_cons_of_ne_nil hne
      rw [resolve?_of_isDigit (hdigits d List.mem_cons_self), numbered?_eq_some_iff (by decide)
        fun d hd => isDigitTo_of_isDigit (hdigits d hd)]
      exact hc
    | hexadecimal hx hne hdigits hc =>
      rw [resolve?_of_mark hx, numbered?_eq_some_iff (by decide) hdigits]
      exact hc

/-! ### The pass -/

variable {s t body rest : List Char}

/-- A reference is replaced, and the pass goes on behind it. -/
theorem replace_reference {c : Char} (h : StandsFor body c) (rest : List Char) :
    replace ('&' :: (body ++ ';' :: rest)) = c :: replace rest := by
  rw [replace_of_body? (body?_eq_some_iff.2 ⟨rfl, h.isBody⟩),
    (resolve?_eq_some_iff h.isBody).2 h]

theorem replace_append_of_notMem (h : '&' ∉ s) (rest : List Char) :
    replace (s ++ rest) = s ++ replace rest := by
  induction s with
  | nil => rfl
  | cons c s ih =>
    rw [List.mem_cons, not_or] at h
    rw [List.cons_append, replace_cons_of_ne (Ne.symm h.1), ih h.2, List.cons_append]

/-- Where no reference stands, the character stays and the pass goes on behind it. What has the
form of a reference but stands for nothing can be passed over character by character, as no
reference starts inside it. -/
theorem replace_verbatim {c : Char}
    (h : ∀ body d after, StandsFor body d → c :: rest ≠ '&' :: (body ++ ';' :: after)) :
    replace (c :: rest) = c :: replace rest := by
  by_cases hc : c = '&'
  · subst hc
    cases hbody : body? rest with
    | none => exact replace_of_body?_eq_none hbody
    | some r =>
      obtain ⟨body, after⟩ := r
      obtain ⟨rfl, hform⟩ := body?_eq_some_iff.1 hbody
      have hnone : resolve? body = none := by
        cases hr : resolve? body with
        | none => rfl
        | some d => exact absurd rfl (h body d after ((resolve?_eq_some_iff hform).1 hr))
      rw [replace_of_body? hbody, hnone, replace_append_of_notMem hform.notMem,
        replace_cons_of_ne (by decide)]
      rfl
  · exact replace_cons_of_ne hc rest

/-- The pass is what the decoder does. -/
theorem Decodes.eq_replace (h : Decodes s t) : t = replace s := by
  induction h with
  | nil => rw [replace]
  | reference h _ ih => rw [replace_reference h, ih]
  | verbatim h _ ih => rw [replace_verbatim h, ih]

/-- Every text has a pass. -/
theorem decodes_replace (s : List Char) : Decodes s (replace s) := by
  induction hn : s.length using Nat.strong_induction_on generalizing s with
  | _ n ih =>
    cases s with
    | nil =>
      rw [replace]
      exact .nil
    | cons c rest =>
      by_cases h : ∃ body d after, StandsFor body d ∧ c :: rest = '&' :: (body ++ ';' :: after)
      · obtain ⟨body, d, after, hd, he⟩ := h
        rw [he, replace_reference hd]
        refine .reference hd (ih _ ?_ after rfl)
        rw [← hn, he]
        simp only [List.length_cons, List.length_append]
        omega
      · have hverbatim : ∀ body d after, StandsFor body d →
            c :: rest ≠ '&' :: (body ++ ';' :: after) :=
          fun body d after hd he => h ⟨body, d, after, hd, he⟩
        rw [replace_verbatim hverbatim]
        exact .verbatim hverbatim (ih rest.length (by rw [← hn]; exact Nat.lt_succ_self _) rest rfl)

/-- **Decoding is the one pass from the left over the references of a text**, and every text has
exactly one outcome. It does not matter that texts without an ampersand are not looked through, and
it does not matter that numbers are read with 32 bits: digits stand for a character exactly if their
number, however large, is the number of that character. -/
theorem decode_unbounded (s t : String) :
    (decode s = t ↔ Decodes s.toList t.toList) ∧
      decode s = String.ofList (replace s.toList) ∧
        ∀ base ∈ [10, 16], ∀ digits : List Char, (∀ d ∈ digits, Text.isDigitTo base d = true) →
          ∀ c, numbered? base digits = some c ↔ c.toNat = Text.numeral base digits := by
  have hdecode : decode s = String.ofList (replace s.toList) := by
    rw [decode, decodeChars_eq_replace]
  refine ⟨?_, hdecode, fun base hbase digits hdigits c => ?_⟩
  · rw [hdecode]
    constructor
    · rintro rfl
      rw [String.toList_ofList]
      exact decodes_replace s.toList
    · intro h
      rw [← h.eq_replace, String.ofList_toList]
  · have hpos : ∀ base ∈ [10, 16], 0 < base := by decide
    exact numbered?_eq_some_iff (hpos base hbase) hdigits

/-- What a reference leaves is not read again, and what only looks like a reference stays. -/
theorem decode_unbounded_lookalikes :
    (decode "&amp;lt;&&#38;#38;&#0000000000065;&#x110000;&#xD800;&#4294967361;&bogus;&lt"
        = "&lt;&&#38;A&#x110000;&#xD800;&#4294967361;&bogus;&lt" ∧
      Decodes "&amp;lt;&&#38;#38;&#0000000000065;&#x110000;&#xD800;&#4294967361;&bogus;&lt".toList
        "&lt;&&#38;A&#x110000;&#xD800;&#4294967361;&bogus;&lt".toList) ∧
    (numbered? 10 "4294967361".toList ≠ some 'A' ∧ numbered? 16 "0000000041".toList = some 'A') := by
  have hdecode : decode
      "&amp;lt;&&#38;#38;&#0000000000065;&#x110000;&#xD800;&#4294967361;&bogus;&lt"
        = "&lt;&&#38;A&#x110000;&#xD800;&#4294967361;&bogus;&lt" := by decide +kernel
  have h := decode_unbounded
    "&amp;lt;&&#38;#38;&#0000000000065;&#x110000;&#xD800;&#4294967361;&bogus;&lt"
    "&lt;&&#38;A&#x110000;&#xD800;&#4294967361;&bogus;&lt"
  have hdecimal : ∀ d ∈ "4294967361".toList, Text.isDigitTo 10 d = true :=
    List.all_eq_true.1 (by decide)
  have hhexadecimal : ∀ d ∈ "0000000041".toList, Text.isDigitTo 16 d = true :=
    List.all_eq_true.1 (by decide)
  refine ⟨⟨hdecode, h.1.1 hdecode⟩, fun hlarge => ?_, ?_⟩
  · exact absurd ((h.2.2 10 (by decide) _ hdecimal 'A').1 hlarge) (by decide)
  · exact (h.2.2 16 (by decide) _ hhexadecimal 'A').2 (by decide)

end Entity

end DocMarkup
