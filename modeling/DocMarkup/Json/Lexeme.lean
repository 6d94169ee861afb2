import DocMarkup.Json.Value
import DocMarkup.Text.Digit

/-!
# JSON lexemes

A JSON text as a sequence of tokens. Where no token can be read the sequence ends in a broken
lexeme, which remembers how it began: a reader that could not have accepted its beginning reports
that, and not what is wrong inside it.

## Main definitions

* `Json.Token`, `Json.Lexeme` : the units of a JSON text.
* `Json.Numeral` : the parts of a written number, and `Json.Numeral.number?`, its value.
* `Json.lexemes` : the lexemes of a text.
-/

namespace DocMarkup.Json

/-- Why a text is no JSON text. -/
inductive Fault where
  /-- The text ends inside a value. -/
  | endOfText
  /-- Anything else. -/
  | malformed
  deriving DecidableEq, Repr

/-- A unit of a JSON text. -/
inductive Token where
  | openArray
  | closeArray
  | openObject
  | closeObject
  | comma
  | colon
  | null
  | bool (b : Bool)
  | number (n : Number)
  | string (s : String)

/-- How a lexeme that is no token begins. -/
inductive Opening where
  /-- With a quotation mark. -/
  | quote
  /-- Like a number, or like `null`, `true` or `false`. -/
  | scalar
  /-- Like no token at all. -/
  | other
  deriving DecidableEq, Repr

/-- A token, or the place where the text stops being one. -/
inductive Lexeme where
  | token (t : Token)
  | broken (opening : Opening) (fault : Fault)

/-- Blanks between tokens: space, tab, line feed and carriage return. -/
def isSpace (c : Char) : Bool := c = ' ' || c = '\t' || c = '\n' || c = '\r'

/-! ### Numbers -/

/-- The parts of a written number. -/
structure Numeral where
  /-- Whether a minus sign stands in front. -/
  negative : Bool
  /-- The digits before the point. -/
  whole : List Char
  /-- The digits after the point, if there is one. -/
  fraction : Option (List Char)
  /-- Whether the exponent is negative, and its digits, if there is an exponent. -/
  exponent : Option (Bool × List Char)

/-- The value of a decimal digit. -/
def digitValue (c : Char) : Nat := c.toNat - 48

/-- The largest natural number of 64 bits. -/
def maxNatural : Nat := (1 <<< 64) - 1

/-- The number that the digits continue `n` to, up to the first digit that would make it exceed
`bound`, and the digits from there on. -/
def accumulate (bound : Nat) (n : Nat) : List Char → Nat × List Char
  | [] => (n, [])
  | c :: rest =>
    if n * 10 + digitValue c ≤ bound then accumulate bound (n * 10 + digitValue c) rest
    else (n, c :: rest)

/-- `x * 10 ^ e`, rounded once after a step that fits the range of doubles. No result where it is
too large. -/
def scale? (x : Float) (e : Int) : Option Float :=
  if 0 ≤ e then
    if 308 < e then if x == 0 then some x else none
    else
      let y := x * Float.ofScientific 1 false e.toNat
      if y.isInf then none else some y
  else
    let rec down (x : Float) : Nat → Nat → Float
      | 0, _ => x
      | fuel + 1, k =>
        if k ≤ 308 then x / Float.ofScientific 1 false k
        else if x == 0 then x
        else down (x / Float.ofScientific 1 false 308) fuel (k - 308)
    -- Three steps take every significand to zero.
    some (down x 8 (-e).toNat)

/-- The double of a significand and a power of ten, with a sign. -/
def real? (negative : Bool) (significand : Nat) (e : Int) : Option Number :=
  (scale? significand.toUInt64.toFloat e).map fun x => .real (if negative then -x else x)

/-- The value of a written number. A significand keeps the leading digits that fit 64 bits. No
value where the number exceeds every double. -/
def Numeral.number? (n : Numeral) : Option Number :=
  let (whole, dropped) := accumulate maxNatural 0 n.whole
  let (significand, shift) := match n.fraction with
    | none => (whole, Int.ofNat dropped.length)
    | some ds =>
      let (m, rest) := accumulate maxNatural whole ds
      (m, Int.ofNat dropped.length - Int.ofNat (ds.length - rest.length))
  match n.fraction, n.exponent with
  | none, none =>
    if dropped ≠ [] then real? n.negative significand shift
    else if !n.negative then some (.natural whole.toUInt64)
    else if whole = 0 ∨ 1 <<< 63 < whole then real? true whole 0
    else some (.negative (-Int.ofNat whole))
  | _, none => real? n.negative significand shift
  | _, some (down, ds) =>
    match accumulate ((1 <<< 31) - 1) 0 ds with
    | (k, []) =>
      real? n.negative significand (shift + if down then -Int.ofNat k else Int.ofNat k)
    | (_, _ :: _) =>
      if significand ≠ 0 ∧ !down then none else some (.real (if n.negative then -0.0 else 0.0))

/-- What follows a run that must go on: the text ended, or it goes on wrongly. -/
def faultAt : List Char → Fault
  | [] => .endOfText
  | _ :: _ => .malformed

/-- The digits at the start, at least one, and the text after them. -/
def digits1 (s : List Char) : Except Fault (List Char × List Char) :=
  match s.takeWhile Char.isDigit with
  | [] => .error (faultAt s)
  | ds => .ok (ds, s.dropWhile Char.isDigit)

/-- The digits before the point: no zero stands before another digit. -/
def wholeDigits (s : List Char) : Except Fault (List Char × List Char) :=
  match digits1 s with
  | .ok ('0' :: _ :: _, _) => .error .malformed
  | r => r

/-- The fraction, if the text goes on with one. -/
def fraction (s : List Char) : Except Fault (Option (List Char) × List Char) :=
  match s with
  | '.' :: rest => (digits1 rest).map fun r => (some r.1, r.2)
  | _ => .ok (none, s)

/-- The sign of an exponent, and the text after it; no sign is a plus. -/
def exponentSign : List Char → Bool × List Char
  | '+' :: rest => (false, rest)
  | '-' :: rest => (true, rest)
  | s => (false, s)

/-- The exponent, if the text goes on with one. -/
def exponent (s : List Char) : Except Fault (Option (Bool × List Char) × List Char) :=
  match s with
  | c :: rest =>
    if c = 'e' ∨ c = 'E' then
      (digits1 (exponentSign rest).2).map fun r => (some ((exponentSign rest).1, r.1), r.2)
    else .ok (none, s)
  | [] => .ok (none, s)

/-- A number at the start of the text, after its sign, and the text after it. -/
def numeral (negative : Bool) (s : List Char) : Except Fault (Number × List Char) := do
  let (whole, rest) ← wholeDigits s
  let (fraction, rest) ← fraction rest
  let (exponent, rest) ← exponent rest
  match (Numeral.mk negative whole fraction exponent).number? with
  | some n => .ok (n, rest)
  | none => .error .malformed

/-! ### Strings -/

/-- Four hexadecimal digits and the text after them. The text ends too early where fewer than four
bytes are left. -/
def hex4 (s : List Char) : Except Fault (Nat × List Char) :=
  if (s.take 4).foldl (fun n c => n + c.utf8Size) 0 < 4 then .error .endOfText
  else match s with
    | a :: b :: c :: d :: rest =>
      match Text.digitValue? a, Text.digitValue? b, Text.digitValue? c, Text.digitValue? d with
      | some a, some b, some c, some d => .ok (((a * 16 + b) * 16 + c) * 16 + d, rest)
      | _, _, _, _ => .error .malformed
    | _ => .error .malformed

/-- The character of an escape by code units, after its `\u`. Two units of a surrogate pair stand
for one character, and neither may stand alone. -/
def unicodeEscape (s : List Char) : Except Fault (Char × List Char) := do
  let (n, rest) ← hex4 s
  if 0xdc00 ≤ n ∧ n ≤ 0xdfff then .error .malformed
  else if n < 0xd800 ∨ 0xdbff < n then .ok (Char.ofNat n, rest)
  else match rest with
    | '\\' :: 'u' :: rest =>
      let (m, rest) ← hex4 rest
      if 0xdc00 ≤ m ∧ m ≤ 0xdfff then
        .ok (Char.ofNat (0x10000 + (n - 0xd800) * 0x400 + (m - 0xdc00)), rest)
      else .error .malformed
    | [] | ['\\'] => .error .endOfText
    | _ => .error .malformed

/-- The character that a letter after a backslash stands for. -/
def plainEscape? (c : Char) : Option Char :=
  match c with
  | '"' => some '"'
  | '\\' => some '\\'
  | '/' => some '/'
  | 'b' => some '\x08'
  | 'f' => some '\x0c'
  | 'n' => some '\n'
  | 'r' => some '\r'
  | 't' => some '\t'
  | _ => none

/-- The character of an escape, after its backslash. -/
def escape (s : List Char) : Except Fault (Char × List Char) :=
  match s with
  | [] => .error .endOfText
  | c :: rest =>
    if c = 'u' then unicodeEscape rest
    else match plainEscape? c with
      | some d => .ok (d, rest)
      | none => .error .malformed

theorem length_hex4 {s rest : List Char} {n : Nat} (h : hex4 s = .ok (n, rest)) :
    rest.length < s.length := by
  unfold hex4 at h
  repeat' split at h
  all_goals simp_all
  omega

theorem length_unicodeEscape {s rest : List Char} {c : Char}
    (h : unicodeEscape s = .ok (c, rest)) : rest.length < s.length := by
  unfold unicodeEscape at h
  rcases hs : hex4 s with f | ⟨n, r⟩
  · rw [hs] at h; cases h
  · have h1 := length_hex4 hs
    simp only [hs, bind, Except.bind] at h
    split at h
    · simp at h
    · split at h
      · simp only [Except.ok.injEq, Prod.mk.injEq] at h
        exact h.2 ▸ h1
      · split at h
        · split at h
          · simp at h
          · rename_i v hv
            have h2 : v.2.length < _ := length_hex4 (n := v.1) hv
            split at h
            · simp only [Except.ok.injEq, Prod.mk.injEq] at h
              simp only [List.length_cons] at h1
              rw [← h.2]
              omega
            · simp at h
        all_goals simp at h

theorem length_escape {s rest : List Char} {c : Char} (h : escape s = .ok (c, rest)) :
    rest.length < s.length := by
  unfold escape at h
  split at h
  · simp at h
  · split at h
    · have := length_unicodeEscape h
      simp only [List.length_cons]
      omega
    · split at h
      · simp only [Except.ok.injEq, Prod.mk.injEq] at h
        simp [h.2]
      · simp at h

/-- The characters of a string after its opening quotation mark, and the text after the closing
one. -/
def stringBody (s : List Char) : Except Fault (List Char × List Char) :=
  match s with
  | [] => .error .endOfText
  | '"' :: rest => .ok ([], rest)
  | '\\' :: rest =>
    match h : escape rest with
    | .error f => .error f
    | .ok (c, after) =>
      have : after.length < rest.length := length_escape h
      (stringBody after).map fun (cs, r) => (c :: cs, r)
  | c :: rest =>
    if c.toNat < 0x20 then .error .malformed
    else (stringBody rest).map fun (cs, r) => (c :: cs, r)
termination_by s.length

/-! ### The lexemes of a text -/

/-- The token of a word whose letters are still to come, or how the text departs from it. -/
def word (t : Token) (letters : List Char) (s : List Char) : Except Fault (Token × List Char) :=
  match letters, s with
  | [], s => .ok (t, s)
  | _ :: _, [] => .error .endOfText
  | c :: letters, d :: s => if c = d then word t letters s else .error .malformed

/-- A token read, or a broken lexeme of the given opening. -/
def lexemeOf {α : Type} (opening : Opening) (f : α → Token) (r : Except Fault (α × List Char)) :
    Lexeme × List Char :=
  match r with
  | .ok (a, rest) => (.token (f a), rest)
  | .error e => (.broken opening e, [])

/-- The lexeme that starts with `c`, and the text after it. Nothing is left after a broken one. -/
def lexeme (c : Char) (s : List Char) : Lexeme × List Char :=
  match c with
  | '[' => (.token .openArray, s)
  | ']' => (.token .closeArray, s)
  | '{' => (.token .openObject, s)
  | '}' => (.token .closeObject, s)
  | ',' => (.token .comma, s)
  | ':' => (.token .colon, s)
  | 'n' => lexemeOf .scalar id (word .null ['u', 'l', 'l'] s)
  | 't' => lexemeOf .scalar id (word (.bool true) ['r', 'u', 'e'] s)
  | 'f' => lexemeOf .scalar id (word (.bool false) ['a', 'l', 's', 'e'] s)
  | '"' => lexemeOf .quote (fun cs => .string (String.ofList cs)) (stringBody s)
  | '-' => lexemeOf .scalar .number (numeral true s)
  | c =>
    if c.isDigit then lexemeOf .scalar .number (numeral false (c :: s))
    else (.broken .other .malformed, [])

theorem length_word {t u : Token} {letters s rest : List Char}
    (h : word t letters s = .ok (u, rest)) : rest.length ≤ s.length := by
  fun_induction word t letters s with
  | case1 => simp_all
  | case2 => simp at h
  | case3 d letters s ih => exact Nat.le_succ_of_le (ih h)
  | case4 => simp at h

theorem length_stringBody {s cs rest : List Char} (h : stringBody s = .ok (cs, rest)) :
    rest.length ≤ s.length := by
  fun_induction stringBody s generalizing cs with
  | case1 => simp at h
  | case2 => simp_all
  | case3 => simp at h
  | case4 rest' c after he hlt ih =>
    cases hb : stringBody after with
    | error f => simp [hb, Except.map] at h
    | ok r =>
      simp only [hb, Except.map, Except.ok.injEq, Prod.mk.injEq] at h
      have := @ih r.1 (by rw [hb, ← h.2])
      simp only [List.length_cons]
      omega
  | case5 => simp at h
  | case6 c r' _ _ _ ih =>
    cases hb : stringBody r' with
    | error f => simp [hb, Except.map] at h
    | ok r =>
      simp only [hb, Except.map, Except.ok.injEq, Prod.mk.injEq] at h
      have := @ih r.1 (by rw [hb, ← h.2])
      simp only [List.length_cons]
      omega

theorem length_digits1 {s ds rest : List Char} (h : digits1 s = .ok (ds, rest)) :
    rest.length < s.length := by
  unfold digits1 at h
  split at h
  · simp at h
  · rename_i hne
    simp only [Except.ok.injEq, Prod.mk.injEq] at h
    cases s with
    | nil => exact absurd rfl hne
    | cons c s =>
      by_cases hc : c.isDigit = true
      · rw [← h.2, List.dropWhile_cons_of_pos hc]
        exact Nat.lt_succ_of_le (List.dropWhile_sublist _).length_le
      · exact absurd (List.takeWhile_cons_of_neg hc) hne

theorem length_wholeDigits {s ds rest : List Char} (h : wholeDigits s = .ok (ds, rest)) :
    rest.length < s.length := by
  unfold wholeDigits at h
  split at h
  · simp at h
  · exact length_digits1 h

theorem length_exponentSign (s : List Char) : (exponentSign s).2.length ≤ s.length := by
  unfold exponentSign
  split <;> simp

theorem of_map_eq_ok {α β : Type} {f : α → β} {r : Except Fault α} {b : β}
    (h : r.map f = .ok b) : ∃ a, r = .ok a ∧ f a = b := by
  cases r with
  | error e => simp [Except.map] at h
  | ok a => exact ⟨a, rfl, by simpa [Except.map] using h⟩

theorem length_fraction {s rest : List Char} {ds : Option (List Char)}
    (h : fraction s = .ok (ds, rest)) : rest.length ≤ s.length := by
  unfold fraction at h
  split at h
  · obtain ⟨r, hr, he⟩ := of_map_eq_ok h
    have := length_digits1 hr
    simp only [List.length_cons, ← (Prod.mk.inj he).2]
    omega
  · simp only [Except.ok.injEq, Prod.mk.injEq] at h
    simp [h.2]

theorem length_exponent {s rest : List Char} {ds : Option (Bool × List Char)}
    (h : exponent s = .ok (ds, rest)) : rest.length ≤ s.length := by
  unfold exponent at h
  split at h
  · split at h
    · obtain ⟨r, hr, he⟩ := of_map_eq_ok h
      have h1 := length_digits1 hr
      rename_i tail _
      have h2 := length_exponentSign tail
      simp only [List.length_cons, ← (Prod.mk.inj he).2]
      omega
    · simp only [Except.ok.injEq, Prod.mk.injEq] at h
      simp [h.2]
  · simp only [Except.ok.injEq, Prod.mk.injEq] at h
    simp [h.2]

theorem length_numeral {negative : Bool} {s rest : List Char} {n : Number}
    (h : numeral negative s = .ok (n, rest)) : rest.length < s.length := by
  unfold numeral at h
  cases hw : wholeDigits s with
  | error f => simp [hw, bind, Except.bind] at h
  | ok p =>
    have h1 := length_wholeDigits hw
    cases hf : fraction p.2 with
    | error f => simp [hw, hf, bind, Except.bind] at h
    | ok q =>
      have h2 := length_fraction hf
      cases he : exponent q.2 with
      | error f => simp [hw, hf, he, bind, Except.bind] at h
      | ok r =>
        have h3 := length_exponent he
        simp only [hw, hf, he, bind, Except.bind] at h
        split at h
        · simp only [Except.ok.injEq, Prod.mk.injEq] at h
          rw [← h.2]
          omega
        · simp at h

theorem length_lexemeOf {α : Type} {o : Opening} {f : α → Token}
    {r : Except Fault (α × List Char)} {n : Nat}
    (h : ∀ a rest, r = .ok (a, rest) → rest.length ≤ n) : (lexemeOf o f r).2.length ≤ n := by
  cases r with
  | error e => simp [lexemeOf]
  | ok p => exact h p.1 p.2 rfl

/-- A lexeme takes nothing back. -/
theorem length_lexeme (c : Char) (s : List Char) : (lexeme c s).2.length ≤ s.length := by
  unfold lexeme
  split
  case h_7 | h_8 | h_9 => exact length_lexemeOf fun _ _ h => length_word h
  case h_10 => exact length_lexemeOf fun _ _ h => length_stringBody h
  case h_11 => exact length_lexemeOf fun _ _ h => Nat.le_of_lt (length_numeral h)
  case h_12 =>
    split
    · exact length_lexemeOf fun _ _ h => Nat.le_of_lt_succ (length_numeral h)
    · simp
  all_goals exact Nat.le_refl _

/-- The lexemes of a text, up to its end or up to the first that is no token. -/
def lexemes (s : List Char) : List Lexeme :=
  match h : s.dropWhile isSpace with
  | [] => []
  | c :: rest =>
    have : (lexeme c rest).2.length < s.length := by
      have h1 := (List.dropWhile_sublist (l := s) isSpace).length_le
      have h2 := length_lexeme c rest
      rw [h, List.length_cons] at h1
      omega
    (lexeme c rest).1 :: lexemes (lexeme c rest).2
termination_by s.length

end DocMarkup.Json
