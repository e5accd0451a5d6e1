/-!
# Repeated characters

A character is repeated a given number of times, for padding, underlining and indentation. A
negative number counts as zero. A number that does not come from the length of a text has to be
checked before: it must fit into a machine word, and the copies into memory. The word is looked at
first.
-/

namespace TreeLint.Text

/-- Why a character cannot be repeated: the number does not fit into a machine word, or there is
no room for the text. -/
inductive CopyError where
  | count
  | room
deriving DecidableEq

/-- The wording of a repetition that is refused; lack of room is left without words. -/
def CopyError.message : CopyError → String
  | .count => "cannot fit 'int' into an index-sized integer"
  | .room => ""

/-- The largest number in a machine word with a sign. -/
def maxWord : Int := 9223372036854775807

/-- The most copies of a character for which there is room. -/
def maxCopies : Int := 4294967295

/-- Refuse a number of copies that is too large. -/
def checkCount (count : Int) : Except CopyError Unit :=
  if maxWord < count ∨ count < -maxWord - 1 then .error .count
  else if maxCopies < count then .error .room
  else .ok ()

/-- A number of copies for which there is room is not refused. -/
theorem checkCount_eq_ok {count : Int} (hleast : -9223372036854775808 ≤ count)
    (hroom : count ≤ 4294967295) : checkCount count = .ok () := by
  have hword : ¬ (maxWord < count ∨ count < -maxWord - 1) := by
    unfold maxWord
    omega
  have hcopies : ¬ maxCopies < count := by
    unfold maxCopies
    omega
  rw [checkCount, if_neg hword, if_neg hcopies]

/-- A character repeated; a negative number of times gives nothing. -/
def copies (count : Int) (c : Char) : String :=
  String.ofList (List.replicate count.toNat c)

end TreeLint.Text
