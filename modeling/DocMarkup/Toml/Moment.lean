import DocMarkup.Decimal.Natural
import DocMarkup.Text.Digit

/-!
# Dates and times in TOML

A moment is a date, a time of day, or both, and with both perhaps an offset from universal time.
Seconds may be left out. Dates are checked against the calendar; a minute may have a leap second.

## Main definitions

* `Toml.Moment` : the moments.
* `Toml.Moment.ofText?` : the moment that a text writes.
* `Toml.Moment.text` : the written form.
-/

namespace DocMarkup.Toml

/-- A day of the calendar. -/
structure Day where
  year : Nat
  month : Nat
  day : Nat
  deriving DecidableEq, Repr

/-- A time of day. -/
structure Clock where
  hour : Nat
  minute : Nat
  second : Option Nat
  /-- The digits after the point of the seconds, if there is one, without zeros at their end. -/
  fraction : Option (List Char)
  deriving DecidableEq, Repr

/-- An offset from universal time. -/
inductive Offset where
  | zero
  | minutes (n : Int)
  deriving DecidableEq, Repr

/-- A date, a time or both. -/
structure Moment where
  day : Option Day
  clock : Option Clock
  offset : Option Offset
  deriving DecidableEq, Repr

/-- The number that two digits write. -/
def twoDigits? (a b : Char) : Option Nat :=
  if a.isDigit && b.isDigit then some (Text.numeral 10 [a, b]) else none

namespace Day

/-- Whether February has a day more. -/
def isLeap (year : Nat) : Bool := year % 4 = 0 && (year % 100 ≠ 0 || year % 400 = 0)

/-- The number of days of a month. -/
def daysIn (year month : Nat) : Nat :=
  match month with
  | 2 => if isLeap year then 29 else 28
  | 4 | 6 | 9 | 11 => 30
  | _ => 31

/-- Whether the calendar has the day. -/
def IsValid (d : Day) : Prop :=
  1 ≤ d.month ∧ d.month ≤ 12 ∧ 1 ≤ d.day ∧ d.day ≤ daysIn d.year d.month

instance (d : Day) : Decidable d.IsValid := inferInstanceAs (Decidable (_ ∧ _))

/-- The day at the start of a text, and the text after it. -/
def read? : List Char → Option (Day × List Char)
  | a :: b :: c :: d :: '-' :: e :: f :: '-' :: g :: h :: rest => do
    let day := ⟨(← twoDigits? a b) * 100 + (← twoDigits? c d), ← twoDigits? e f, ← twoDigits? g h⟩
    if day.IsValid then some (day, rest) else none
  | _ => none

end Day

namespace Clock

/-- Whether a day has the time. -/
def IsValid (c : Clock) : Prop := c.hour ≤ 23 ∧ c.minute ≤ 59 ∧ c.second.getD 0 ≤ 60

instance (c : Clock) : Decidable c.IsValid := inferInstanceAs (Decidable (_ ∧ _))

/-- The digits of a fraction without zeros at their end, up to nine. -/
def significant (ds : List Char) : List Char :=
  ((ds.take 9).reverse.dropWhile (· = '0')).reverse

/-- The time whose hour and minute four digits write, with the rest of it. -/
def ofDigits? (a b c d : Char) (second : Option Nat) (fraction : Option (List Char)) :
    Option Clock := do
  let clock := ⟨← twoDigits? a b, ← twoDigits? c d, second, fraction.map significant⟩
  if clock.IsValid then some clock else none

/-- The time at the start of a text, and the text after it. -/
def read? : List Char → Option (Clock × List Char)
  | a :: b :: ':' :: c :: d :: ':' :: e :: f :: '.' :: rest =>
    match rest.takeWhile Char.isDigit with
    | [] => none
    | ds => do
      let clock ← ofDigits? a b c d (some (← twoDigits? e f)) (some ds)
      return (clock, rest.dropWhile Char.isDigit)
  | a :: b :: ':' :: c :: d :: ':' :: e :: f :: rest => do
    return (← ofDigits? a b c d (some (← twoDigits? e f)) none, rest)
  | a :: b :: ':' :: c :: d :: rest => do return (← ofDigits? a b c d none none, rest)
  | _ => none

end Clock

namespace Offset

/-- The offset that a text writes; it is shorter than a day. -/
def ofText? : List Char → Option Offset
  | ['Z'] | ['z'] => some zero
  | [sign, a, b, ':', c, d] => do
    let hour ← twoDigits? a b
    let minute ← twoDigits? c d
    if 23 < hour ∨ 59 < minute then none
    else match sign with
      | '+' => some (minutes (hour * 60 + minute))
      | '-' => some (minutes (-(hour * 60 + minute)))
      | _ => none
  | _ => none

end Offset

/-- A number with at least two digits. -/
def padded (n : Nat) : List Char :=
  if n < 10 then '0' :: Decimal.digits n else Decimal.digits n

/-- The written form of a day. -/
def Day.text (d : Day) : List Char :=
  padded (d.year / 100) ++ padded (d.year % 100) ++ '-' :: padded d.month ++ '-' :: padded d.day

/-- The written form of a time. -/
def Clock.text (c : Clock) : List Char :=
  padded c.hour ++ ':' :: padded c.minute ++
    (match c.second with
    | none => []
    | some s => ':' :: padded s) ++
    match c.fraction with
    | none => []
    | some [] => ['.', '0']
    | some ds => '.' :: ds

/-- The written form of an offset. -/
def Offset.text : Offset → List Char
  | zero => ['Z']
  | minutes n =>
    (if n < 0 then '-' else '+') :: padded (n.natAbs / 60) ++ ':' :: padded (n.natAbs % 60)

namespace Moment

/-- A time with an offset, after a day. -/
def afterDay? (d : Day) (s : List Char) : Option Moment := do
  let (clock, rest) ← Clock.read? s
  if rest.isEmpty then some ⟨some d, some clock, none⟩
  else some ⟨some d, some clock, some (← Offset.ofText? rest)⟩

/-- The moment that a text writes. A `T` in either case or a space stands between day and
time. -/
def ofText? (s : List Char) : Option Moment :=
  match Day.read? s with
  | some (d, []) => some ⟨some d, none, none⟩
  | some (d, c :: rest) =>
    if c = 'T' ∨ c = 't' ∨ c = ' ' then afterDay? d rest else none
  | none =>
    match Clock.read? s with
    | some (c, []) => some ⟨none, some c, none⟩
    | _ => none

/-- The written form of a moment. -/
def text (m : Moment) : String :=
  String.ofList <|
    ((m.day.map Day.text).getD []) ++ (if m.day.isSome && m.clock.isSome then ['T'] else []) ++
      ((m.clock.map Clock.text).getD []) ++ ((m.offset.map Offset.text).getD [])

end Moment

end DocMarkup.Toml
