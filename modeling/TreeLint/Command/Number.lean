import TreeLint.Text.Blank
import TreeLint.Text.Decimal

/-!
# Whole numbers on the command line

A number is a run of decimal digits of any script, with single underscores allowed between digits,
a sign in front, and white space around it. Of ASCII only the classic six blanks count as white
space here. A number may not have too many digits.
-/

namespace TreeLint.Command

/-- White space around a number: the six ASCII blanks, and all white space outside ASCII. -/
def isNumberBlank (c : Char) : Bool :=
  c == ' ' || (0x09 ≤ c.toNat && c.toNat ≤ 0x0d) || (0x80 ≤ c.toNat && Text.isBlank c)

/-- Drop the white space at both ends of a number. -/
def trimNumber (word : List Char) : List Char :=
  ((word.dropWhile isNumberBlank).reverse.dropWhile isNumberBlank).reverse

/-- Digits with single underscores between them, without the underscores. -/
def joinDigits? : List Char → Option (List Char)
  | [] => none
  | [c] => if Text.isDecimal c then some [c] else none
  | c :: '_' :: rest => if Text.isDecimal c then (joinDigits? rest).map (c :: ·) else none
  | c :: rest => if Text.isDecimal c then (joinDigits? rest).map (c :: ·) else none

/-- Read a number without its sign. -/
def readMagnitude? (word : List Char) : Option Int := do
  let digits ← joinDigits? word
  if Text.maxDigits < digits.length then none
  else
    let n ← Text.readDecimal? digits
    return n

/-- Read a whole number. -/
def readWhole? (text : String) : Option Int :=
  match trimNumber text.toList with
  | '-' :: rest => (readMagnitude? rest).map (- ·)
  | '+' :: rest => readMagnitude? rest
  | rest => readMagnitude? rest

end TreeLint.Command
