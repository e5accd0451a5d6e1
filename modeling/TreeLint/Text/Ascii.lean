/-!
# ASCII letters and digits

Classes of ASCII characters, their lower-case form, and hexadecimal digits. None of these classes
has members outside ASCII.
-/

namespace TreeLint.Text

/-- Lower-case ASCII letters. -/
def isLower (c : Char) : Bool :=
  'a' ≤ c && c ≤ 'z'

/-- Upper-case ASCII letters. -/
def isUpper (c : Char) : Bool :=
  'A' ≤ c && c ≤ 'Z'

/-- ASCII digits. -/
def isDigit (c : Char) : Bool :=
  '0' ≤ c && c ≤ '9'

/-- A text with its ASCII letters in lower case. -/
def lowerCase (text : List Char) : List Char :=
  text.map Char.toLower

/-- The lower-case hexadecimal digits of a number, padded with zeros to a width. -/
def hexDigits (width n : Nat) : List Char :=
  let digits := Nat.toDigits 16 n
  List.replicate (width - digits.length) '0' ++ digits

/-- The value of a hexadecimal digit. -/
def hexValue? (c : Char) : Option Nat :=
  if isDigit c then some (c.toNat - '0'.toNat)
  else if 'a' ≤ c && c ≤ 'f' then some (c.toNat - 'a'.toNat + 10)
  else if 'A' ≤ c && c ≤ 'F' then some (c.toNat - 'A'.toNat + 10)
  else none

end TreeLint.Text
