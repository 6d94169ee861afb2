import DocMarkup.Text.Printable

/-!
# Quoted text in messages

Error messages show a text between double quotes, with every character that could not be read
back from a line of a log written as an escape. A single quote stands as it is.

## Main definitions

* `Text.quoted` : the quoted form.
-/

namespace DocMarkup.Text

/-- The form of one character inside quotes. -/
def quotedChar (c : Char) : List Char :=
  if c = '"' then ['\\', '"']
  else if c = '\\' then ['\\', '\\']
  else if c = '\x00' then ['\\', '0']
  else if c = '\t' then ['\\', 't']
  else if c = '\n' then ['\\', 'n']
  else if c = '\r' then ['\\', 'r']
  else if isPrintable c then [c]
  else ['\\', 'u', '{'] ++ Nat.toDigits 16 c.toNat ++ ['}']

/-- The text between double quotes, with escapes for what is not printable. -/
def quoted (s : String) : String :=
  String.ofList ('"' :: s.toList.flatMap quotedChar ++ ['"'])

end DocMarkup.Text
