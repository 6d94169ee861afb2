import DocMarkup.Text.Digit

/-!
# Character references

References in raw HTML that stand for a character: a few by name, and any character by its number.
A reference is read in one pass from the left, what it yields is never read again, and whatever is
no reference stays as it is. That includes what has the form of a reference but stands for nothing:
a name that is not known, or a number that is too large or no character. Numbers are read with 32
bits.

## Main definitions

* `Entity.body?` : what has the form of a reference after an ampersand.
* `Entity.resolve?` : the character that it stands for.
* `Entity.decode` : a text with its references replaced.
-/

namespace DocMarkup.Entity

/-- The character of a name. -/
def named? (name : List Char) : Option Char :=
  match String.ofList name with
  | "amp" => some '&'
  | "apos" => some '\''
  | "gt" => some '>'
  | "lt" => some '<'
  | "nbsp" => some '\u00a0'
  | "quot" => some '"'
  | _ => none

/-- A run of characters of a class, not empty, up to a semicolon, and the text after it. -/
def run? (p : Char → Bool) (s : List Char) : Option (List Char × List Char) :=
  match s.takeWhile p, s.dropWhile p with
  | c :: cs, ';' :: rest => some (c :: cs, rest)
  | _, _ => none

/-- A mark with the run that follows it. -/
def marked (mark : List Char) (run : Option (List Char × List Char)) :
    Option (List Char × List Char) :=
  run.map fun (digits, rest) => (mark ++ digits, rest)

/-- What has the form of a reference after an ampersand, up to its semicolon, and the text after
it: a number sign with decimal digits, or with an `x` and hexadecimal digits, or a name. -/
def body? (s : List Char) : Option (List Char × List Char) :=
  match s with
  | '#' :: 'x' :: rest => marked ['#', 'x'] (run? (Text.isDigitTo 16) rest)
  | '#' :: 'X' :: rest => marked ['#', 'X'] (run? (Text.isDigitTo 16) rest)
  | '#' :: rest => marked ['#'] (run? Char.isDigit rest)
  | s => run? Char.isAlpha s

/-- The character that digits give the number of, if 32 bits hold the number and it has a
character. -/
def numbered? (base : Nat) (digits : List Char) : Option Char :=
  (Text.numeral32? base digits).bind fun n => Text.scalar? n.toNat

/-- The character that the body of a reference stands for. -/
def resolve? (body : List Char) : Option Char :=
  match body with
  | '#' :: 'x' :: digits => numbered? 16 digits
  | '#' :: 'X' :: digits => numbered? 16 digits
  | '#' :: digits => numbered? 10 digits
  | name => named? name

theorem length_run? {p : Char → Bool} {s b rest : List Char} (h : run? p s = some (b, rest)) :
    rest.length < s.length := by
  unfold run? at h
  split at h
  · rename_i hd
    have := (List.dropWhile_sublist (l := s) p).length_le
    simp only [Option.some.injEq, Prod.mk.injEq] at h
    rw [hd, List.length_cons, h.2] at this
    omega
  · simp at h

theorem length_marked {mark s b rest : List Char} {p : Char → Bool}
    (h : marked mark (run? p s) = some (b, rest)) : rest.length < s.length := by
  obtain ⟨⟨digits, after⟩, hr, he⟩ := Option.map_eq_some_iff.1 h
  exact (Prod.mk.inj he).2 ▸ length_run? hr

theorem length_body? {s b rest : List Char} (h : body? s = some (b, rest)) :
    rest.length < s.length := by
  unfold body? at h
  split at h
  · have := length_marked h; simp only [List.length_cons]; omega
  · have := length_marked h; simp only [List.length_cons]; omega
  · have := length_marked h; simp only [List.length_cons]; omega
  · exact length_run? h

/-- The text with its references replaced by their characters. What has the form of a reference
but stands for nothing is passed over as a whole. -/
def replace (s : List Char) : List Char :=
  match s with
  | [] => []
  | c :: rest =>
    if c = '&' then
      match h : body? rest with
      | some (body, after) =>
        have : after.length < rest.length := length_body? h
        match resolve? body with
        | some d => d :: replace after
        | none => '&' :: body ++ ';' :: replace after
      | none => c :: replace rest
    else c :: replace rest
termination_by s.length

/-- A character that is no ampersand stays. -/
theorem replace_cons_of_ne {c : Char} (h : c ≠ '&') (s : List Char) :
    replace (c :: s) = c :: replace s := by
  rw [replace, if_neg h]

/-- An ampersand before what has the form of a reference. -/
theorem replace_of_body? {s body after : List Char} (h : body? s = some (body, after)) :
    replace ('&' :: s) = match resolve? body with
      | some d => d :: replace after
      | none => '&' :: body ++ ';' :: replace after := by
  rw [replace, if_pos rfl]
  split
  · rename_i b a h'
    rw [h] at h'
    cases h'
    rfl
  · rename_i h'
    simp [h] at h'

/-- An ampersand before anything else stays. -/
theorem replace_of_body?_eq_none {s : List Char} (h : body? s = none) :
    replace ('&' :: s) = '&' :: replace s := by
  rw [replace, if_pos rfl]
  split
  · rename_i h'
    simp [h] at h'
  · rfl

/-- A text without an ampersand stays. -/
theorem replace_of_notMem {s : List Char} (h : '&' ∉ s) : replace s = s := by
  induction s with
  | nil => rw [replace]
  | cons c s ih =>
    rw [List.mem_cons, not_or] at h
    rw [replace_cons_of_ne (Ne.symm h.1), ih h.2]

/-- The text with its references replaced by their characters. A text without an ampersand is
given back as it is. -/
def decodeChars (s : List Char) : List Char := if '&' ∈ s then replace s else s

/-- Texts without an ampersand are no exception. -/
theorem decodeChars_eq_replace (s : List Char) : decodeChars s = replace s := by
  rw [decodeChars]
  split
  · rfl
  · rename_i h
    exact (replace_of_notMem h).symm

/-- The text with its references replaced by their characters. -/
def decode (s : String) : String := String.ofList (decodeChars s.toList)

end DocMarkup.Entity
