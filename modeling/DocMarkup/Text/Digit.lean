/-!
# Digits and numbered characters

Digits up to base sixteen, in either case, and the characters that numbers stand for.

## Main definitions

* `Text.digitValue?` : the value of a digit.
* `Text.numeral` : the number that digits write.
* `Text.numeral32?` : the same with 32 bits.
* `Text.scalar?` : the character of a number.
-/

namespace DocMarkup.Text

/-- The value of a hexadecimal digit. -/
def digitValue? (c : Char) : Option Nat :=
  if c.isDigit then some (c.toNat - 48)
  else if 'a' ≤ c ∧ c ≤ 'f' then some (c.toNat - 87)
  else if 'A' ≤ c ∧ c ≤ 'F' then some (c.toNat - 55)
  else none

/-- Whether the character is a digit to a base, at most sixteen. -/
def isDigitTo (base : Nat) (c : Char) : Bool := (digitValue? c).any (· < base)

/-- The number that digits to a base write. -/
def numeral (base : Nat) (digits : List Char) : Nat :=
  digits.foldl (fun n c => n * base + (digitValue? c).getD 0) 0

/-- A number of 32 bits with one more digit behind it, if it still fits. -/
def pushDigit? (base : Nat) (n : UInt32) (c : Char) : Option UInt32 :=
  (digitValue? c).bind fun d =>
    let m := n.toNat * base + d
    if m < UInt32.size then some (.ofNat m) else none

/-- The number of 32 bits that digits to a base write, if it fits. -/
def numeral32? (base : Nat) (digits : List Char) : Option UInt32 :=
  digits.foldlM (pushDigit? base) 0

/-- The character with the number `n`, if there is one: surrogates are no characters. -/
def scalar? (n : Nat) : Option Char :=
  if n < 0xd800 ∨ (0xdfff < n ∧ n < 0x110000) then some (Char.ofNat n) else none

end DocMarkup.Text
