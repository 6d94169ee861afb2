/-!
# Decimal text of natural numbers

## Main definitions

* `Decimal.digits`, `Decimal.text` : the decimal numeral of a number, without leading zeros.
-/

namespace DocMarkup.Decimal

/-- The decimal digits of a number, the first one not zero unless the number is. -/
def digits (n : Nat) : List Char := Nat.toDigits 10 n

/-- The decimal numeral of a number. -/
def text (n : Nat) : String := String.ofList (digits n)

end DocMarkup.Decimal
