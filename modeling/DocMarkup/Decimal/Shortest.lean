import DocMarkup.Decimal.Natural

/-!
# Shortest decimal text of a double

The text of a finite double has the fewest significant digits that read back to the same double,
and of two such digit strings the nearer one. The digits are found in exact arithmetic on natural
numbers; where they stand relative to the point is decided by a separate record.

## Main definitions

* `Decimal.Binary` : the parts of a finite double, and the interval of reals that round to it.
* `Decimal.Binary.shortest` : the digits and their exponent.
* `Decimal.Layout` : how digits and exponent are written.
-/

namespace DocMarkup.Decimal

/-- A positive finite double `mantissa * 2 ^ exponent`. -/
structure Binary where
  /-- The integer significand. -/
  mantissa : Nat
  /-- The power of two. -/
  exponent : Int
  /-- Whether the double below is only half a step away. -/
  narrowBelow : Bool

/-- A decimal `digits * 10 ^ exponent`. -/
structure Digits where
  /-- The significant digits as a number. -/
  digits : Nat
  /-- The power of ten. -/
  exponent : Int

/-- The sign bit and the magnitude of a finite double; zero has no magnitude. -/
def Binary.ofFloat (x : Float) : Bool × Option Binary :=
  let bits := x.toBits.toNat
  let fraction := bits % (1 <<< 52)
  let scale := (bits >>> 52) % (1 <<< 11)
  let negative := bits >>> 63 = 1
  if scale = 0 then
    (negative, if fraction = 0 then none else some ⟨fraction, -1074, false⟩)
  else
    (negative, some ⟨(1 <<< 52) + fraction, Int.ofNat scale - 1075, fraction = 0 && 1 < scale⟩)

namespace Binary

/-- `q` quarters of the last place, as a numerator over `denominator`, in units of `10 ^ p`. -/
def numerator (b : Binary) (p : Int) (q : Nat) : Nat :=
  (q <<< (b.exponent - 2).toNat) * Nat.pow 10 (-p).toNat

/-- The denominator that goes with `numerator`. -/
def denominator (b : Binary) (p : Int) : Nat :=
  (1 <<< (2 - b.exponent).toNat) * Nat.pow 10 p.toNat

/-- The exponent `e` with `10 ^ (e - 1) ≤ b < 10 ^ e`. Every double is above `10 ^ -350`. -/
def magnitude (b : Binary) : Int :=
  Int.ofNat (digits (b.numerator (-350) (4 * b.mantissa) / b.denominator (-350))).length
    - 350

/-- Whether `d * 10 ^ p` rounds to `b`: the ends of the interval belong to it when the
significand is even. -/
def accepts (b : Binary) (p : Int) (d : Nat) : Bool :=
  let low := b.numerator p (4 * b.mantissa - if b.narrowBelow then 1 else 2)
  let high := b.numerator p (4 * b.mantissa + 2)
  let point := d * b.denominator p
  if b.mantissa % 2 = 0 then low ≤ point && point ≤ high else low < point && point < high

/-- The neighbour of `b` on the grid of `10 ^ p` that rounds to `b`, the nearer of two, and the
even one of two equally near. -/
def onGrid? (b : Binary) (p : Int) : Option Nat :=
  let num := b.numerator p (4 * b.mantissa)
  let den := b.denominator p
  let below := num / den
  let twice := 2 * (num % den)
  let preferBelow := twice < den || (twice == den && below % 2 == 0)
  match b.accepts p below, b.accepts p (below + 1) with
  | true, true => some (if preferBelow then below else below + 1)
  | true, false => some below
  | false, true => some (below + 1)
  | false, false => none

/-- Drops trailing zeros. -/
def dropZeros : Nat → Digits → Digits
  | 0, d => d
  | fuel + 1, d =>
    if d.digits ≠ 0 ∧ d.digits % 10 = 0 then dropZeros fuel ⟨d.digits / 10, d.exponent + 1⟩ else d

/-- The shortest decimal that rounds to `b`. Seventeen digits always suffice. -/
def shortest (b : Binary) : Digits :=
  let e := b.magnitude
  let hit := (List.range 17).findSome? fun k =>
    let p := e - Int.ofNat (k + 1)
    (b.onGrid? p).map fun d => (⟨d, p⟩ : Digits)
  dropZeros 20 (hit.getD ⟨0, 0⟩)

end Binary

/-- How the digits of a decimal are laid out. -/
structure Layout where
  /-- The lowest exponent of the leading digit that is written without an exponent part. -/
  positionalFrom : Int
  /-- The highest such exponent. -/
  positionalTo : Int

/-- Digits with a point after the first `n` of them, and `.0` where no digit would follow. -/
def pointAfter (n : Nat) (ds : List Char) : List Char :=
  match ds.drop n with
  | [] => ds ++ List.replicate (n - ds.length) '0' ++ ['.', '0']
  | rest => ds.take n ++ '.' :: rest

/-- The text of a positive decimal. -/
def Layout.write (l : Layout) (d : Digits) : List Char :=
  let ds := Decimal.digits d.digits
  let lead := d.exponent + Int.ofNat ds.length - 1
  if l.positionalFrom ≤ lead ∧ lead ≤ l.positionalTo then
    if lead < 0 then '0' :: '.' :: List.replicate (-lead - 1).toNat '0' ++ ds
    else pointAfter (lead.toNat + 1) ds
  else
    let mantissa := match ds with
      | [] => []
      | [c] => [c]
      | c :: rest => c :: '.' :: rest
    mantissa ++ 'e' :: (if lead < 0 then '-' else '+') :: Decimal.digits lead.natAbs

/-- The text of a finite double, with its sign also where it is zero. -/
def Layout.text (l : Layout) (x : Float) : String :=
  let (negative, magnitude) := Binary.ofFloat x
  let body := match magnitude with
    | none => ['0', '.', '0']
    | some b => l.write b.shortest
  String.ofList (if negative then '-' :: body else body)

end DocMarkup.Decimal
